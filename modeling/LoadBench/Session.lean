import LoadBench.CommandLine
import LoadBench.Config.Document
import LoadBench.Operator.StartGate
import LoadBench.Run
import LoadBench.Text.Lines
import LoadBench.Text.Plain

/-!
# Sessions

A session runs a configuration once, with an operator at the keyboard. The operator answers when the
bench waits, so the lines typed so far determine what has happened so far: a session is a function
of them, and one more line continues it.
-/

namespace LoadBench

namespace TypedLine

/-- The lines that a reader gets out of a text. -/
def ofText (reader : Reader) (text : String) : List TypedLine :=
  (lines text.toList).map fun l => ⟨reader, .ofList l⟩

end TypedLine

namespace Session

/-- The bench before the start. Its sampling keeps up with the run, and nothing limits the run. -/
def bench (o : Options) (c : Config) (replies : List TypedLine) : Bench :=
  Bench.withSpring {
      calibration := c.calibration
      cell := { zeroCounts := o.zeroCounts, countsPerUnit := o.countsPerUnit }
      sampler := { readings := c.sampling.readings, sink := { keeps := false, reports := true } }
      operator := { sources := [.typed replies], pollMillis := c.procedure.pollMillis }
      procedure := c.procedure
      schedule := fun _ _ => [.serve]
      ticksLeft := 0x1000000000000000
      delaysLeft := 0x1000000000000000 }
    o.loadPerStep

def start (autostart requested : Bool) : Action Unit := do
  unless autostart do
    Action.note .pressEnter
  let gate := [.flag autostart, .flag requested]
  match (StartGate.wait Trigger.check 0 gate (← get).procedure.pollMillis).trigger with
  | some i => Action.note (.startAsserted i)
  | none => throw .awaitingOperator

/-- Runs the program and reports what it came to. -/
def body (o : Options) (c : Config) (autostart requested : Bool) : Action Unit := do
  let p := Program.ofLines c.program
  Action.note (.programLoaded p.length o.config)
  Action.note .sampling
  start autostart requested
  let tally ← Action.run p
  modify Bench.samplingStopped
  Action.note (.runReport tally)
  let b ← get
  Action.note (.samplingReport b.sampler.delivered b.mailbox.overwritten)

structure Transcript where
  log : Array Record
  /-- Delays made, in milliseconds. -/
  delays : Array Nat
  /-- Nothing more happens, whatever is typed. -/
  finished : Bool

/-- What has happened when these lines were typed. A line that asks for the start answers nothing
else. -/
def play (o : Options) (c : Config) (typed : List TypedLine) : Transcript :=
  let autostart := o.autostart || c.autostart
  let replies := if autostart then typed else typed.drop 1
  match body o c autostart (!typed.isEmpty) (bench o c replies) with
  | .ok () b => ⟨b.log, b.delays, true⟩
  | .error .awaitingOperator b => ⟨b.log, b.delays, false⟩
  | .error _ b => ⟨b.log, b.delays, true⟩

def indented (cs : List Char) : List Char :=
  cs.flatMap fun c => if c = '\n' then '\n' :: List.replicate 4 ' ' else [c]

def logLine (n : Notice) : String := .ofList (plain (indented n.line.toList))

/-- The records after the clock and the delays of another, each with the microseconds that pass
before it. Delays take their time, and ticks do unless the run is `fast`. -/
def paced (fast : Bool) (delays : Array Nat) (clock made : Nat) :
    List Record → List (Nat × Notice)
  | [] => []
  | r :: rs =>
    let pauses := 1000 * (delays.extract made r.delays).sum
    let ticking := if fast then 0 else r.clock.toNat - clock
    (pauses + ticking, r.notice) :: paced fast delays r.clock.toNat r.delays rs

/-- What there is to report after the first `shown` records. -/
def Transcript.news (t : Transcript) (fast : Bool) (shown : Nat) : List (Nat × Notice) :=
  (paced fast t.delays 0 0 t.log.toList).drop shown

end Session

end LoadBench
