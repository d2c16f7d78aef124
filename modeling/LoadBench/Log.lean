import LoadBench.Calibration.Basic
import LoadBench.Number.Fixed
import LoadBench.Operator.LineGate
import LoadBench.Sampling.Mailbox
import LoadBench.Text.Quoted
import LoadBench.Units

/-!
# The log

Everything the bench reports is a notice. A notice has a level and a wording; what it says is data,
so that statements about the log need not look into its text.
-/

namespace LoadBench

inductive Level where
  | error | warn | info | debug | trace
  deriving DecidableEq, Repr

namespace Level

def name : Level → String
  | .error => "ERROR"
  | .warn => "WARN"
  | .info => "INFO"
  | .debug => "DEBUG"
  | .trace => "TRACE"

def verbosity : Level → Nat
  | .error => 1
  | .warn => 2
  | .info => 3
  | .debug => 4
  | .trace => 5

end Level

structure Sample where
  /-- Number of the sample within its move, from 1. -/
  index : Nat
  position : Single
  /-- Mean of the raw readings. -/
  raw : Single
  /-- Calibrated load. -/
  load : Single
  /-- Clock time of the measurement, in microseconds. -/
  time : Nat

/-- What a run has done so far. -/
structure Tally where
  /-- Commands that completed, replays included. -/
  executed : Nat := 0
  /-- Commands that were refused. -/
  skipped : Nat := 0
  /-- Moves that completed. -/
  moves : Nat := 0
  /-- Sample requests posted by moves. -/
  samples : Nat := 0
  deriving DecidableEq, Repr

/-- What the bench reports. -/
inductive Notice where
  | requestOverwritten (lost new : Nat)
  | moving (target : Single) (steps delta : Steps) (speed seconds : Single)
  | sampleRequested (position : Single)
  | sampling
  | sampled (s : Sample)
  | samplingStopped (delivered : Nat)
  | inputClosed
  | valueIgnored (v : Single)
  | valueRequired
  | lineIgnored (line : TypedLine)
  | startAsserted (trigger : Nat)
  | removeLoad
  | zeroReading (mean : Single)
  | applyLoad (reference : Single)
  | loadedReading (mean : Single)
  | loadConstants (offset divider : Single)
  | loadCalibrated (offset divider : Single)
  | distanceMove (steps : Steps)
  | enterDistance
  | distanceRefused (e : CalibrationError)
  | distanceCalibrated (stepsPerUnit previous : Single)
  | runStarted (lines unparseable : Nat)
  | replaying (line cycles : Nat)
  | waiting (seconds : Single)
  | constantsSet (c : Calibration)
  | skipped (line : Nat) (source : String) (why : Refusal)
  | runFinished (t : Tally)
  | readerFinished (reader : Reader)
  | readerFailed (reader : Reader) (why : String)
  | programLoaded (lines : Nat) (path : String)
  | pressEnter
  | runReport (t : Tally)
  | samplingReport (delivered overwritten : Nat)

namespace Notice

def level : Notice → Level
  | .skipped .. | .readerFailed .. => .error
  | .valueRequired | .lineIgnored .. | .distanceRefused .. => .warn
  | .requestOverwritten .. | .moving .. | .sampling | .inputClosed | .valueIgnored ..
  | .loadConstants .. | .replaying .. | .waiting .. => .debug
  | .sampleRequested .. => .trace
  | _ => .info

def tallyText (t : Tally) : String :=
  s!"{t.executed} executed, {t.skipped} skipped, {t.moves} moves, {t.samples} samples requested"

def text : Notice → String
  | .requestOverwritten lost new =>
    s!"sample request #{lost} overwritten by #{new} before it was consumed"
  | .moving target steps delta speed seconds =>
    s!"move to {target.text} ({steps} steps, delta {delta}) at {speed.text} steps/s, " ++
      s!"{seconds.fixed 3}s planned"
  | .sampleRequested position => s!"sample requested at {position.text}"
  | .sampling => "sampling consumer started"
  | .sampled s =>
    s!"sample #{s.index} pos={s.position.fixed 3} load={s.load.fixed 3} raw={s.raw.fixed 1} " ++
      s!"t={s.time}us"
  | .samplingStopped delivered => s!"sampling consumer stopped after {delivered} samples"
  | .inputClosed => "operator input channel closed"
  | .valueIgnored v => s!"acknowledgement carried value {v.text}, ignored"
  | .valueRequired => "a numeric value is required"
  | .lineIgnored line =>
    s!"{line.reader.name}: ignoring {quoted line.text}, expected a number or an empty line"
  | .startAsserted trigger => s!"start trigger {trigger} asserted"
  | .removeLoad => "load calibration: remove all load from the cell and acknowledge"
  | .zeroReading mean => s!"load calibration: zero reading {mean.fixed 1}"
  | .applyLoad reference =>
    s!"load calibration: apply the reference load of {reference.text} and acknowledge"
  | .loadedReading mean => s!"load calibration: loaded reading {mean.fixed 1}"
  | .loadConstants offset divider =>
    s!"load calibration: offset {offset.text} divider {divider.text}"
  | .loadCalibrated offset divider =>
    s!"load calibration applied: offset {offset.fixed 1}, scale divider {divider.fixed 4}"
  | .distanceMove steps =>
    s!"distance calibration: moving {steps} steps; acknowledge to start"
  | .enterDistance => "distance calibration: enter the distance actually travelled"
  | .distanceRefused e => s!"{e.message}; try again"
  | .distanceCalibrated stepsPerUnit previous =>
    s!"distance calibration applied: {stepsPerUnit.text} steps per unit (was {previous.text})"
  | .runStarted lines unparseable => s!"running program: {lines} lines, {unparseable} unparseable"
  | .replaying line cycles => s!"line {line}: replaying lines 0..{line} {cycles} times"
  | .waiting seconds => s!"waiting {seconds.text} s"
  | .constantsSet c =>
    s!"constants: {c.stepsPerUnit.text} steps per unit, scale divider {c.scaleDivider.text}, " ++
      s!"offset {c.offset.text}"
  | .skipped line source why => s!"line {line} `{source}` skipped: {why.message}"
  | .runFinished t => "program finished: " ++ tallyText t
  | .readerFinished reader => s!"{reader.name}: operator input closed"
  | .readerFailed reader why => s!"{reader.name}: cannot open operator input: {why}"
  | .programLoaded lines path => s!"loaded {lines} program lines from {path}"
  | .pressEnter => "press enter to start"
  | .runReport t => "run report: " ++ tallyText t
  | .samplingReport delivered overwritten =>
    s!"sampling: {delivered} delivered, {overwritten} overwritten"

def line (n : Notice) : String := n.level.name ++ " " ++ n.text

end Notice

end LoadBench
