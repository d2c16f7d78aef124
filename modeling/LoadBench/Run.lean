import LoadBench.Calibration.Distance
import LoadBench.Command.Program

/-!
# Running programs

Commands run strictly in order, each to its end. A replay at line `k` runs the lines before it once
more, as often as it says, and replays among those lines run again each time. A command that is
refused is reported and skipped; the run goes on.
-/

namespace LoadBench

/-- A dwell in whole milliseconds; less than none is none. -/
def dwellMillis (seconds : Single) : Nat := ((seconds * 1000).nearest 0 0xFFFFFFFF).toNat

namespace Action

def setConstants (given : Constants) : Action Unit := do
  let c ← accept .setting (← update given.changes)
  if given.stepsPerUnit.isSome then modify (·.rebased c.stepsPerUnit)
  if given.scaleDivider.isSome then setDriverScale c.scaleDivider
  if given.offset.isSome then setDriverOffset c.offset
  note (.constantsSet c)

def calibrateLoad (reference : Single) : Action Calibration := do
  match ← LoadCalibration.complete { reference } with
  | (_, .ok c) => return c
  | (_, .error why) => refuse why

/-- Carries out one command. A replay needs the program and does nothing here. -/
def execute : Command → Action Unit
  | .move target feedrate samples => do
    let report ← move target feedrate samples (← get).calibration.stepsPerUnit
    modify fun b => { b with tally := { b.tally with
      moves := b.tally.moves + 1
      samples := b.tally.samples + report.samples } }
  | .wait seconds => do
    note (.waiting seconds)
    delay (dwellMillis seconds)
  | .constants given => setConstants given
  | .calibrateLoad reference => do let _ ← calibrateLoad reference
  | .calibrateDistance target feedrate => do let _ ← calibrateDistance target feedrate
  | .replay _ => return

def countExecuted : Action Unit :=
  modify fun b => { b with tally := { b.tally with executed := b.tally.executed + 1 } }

def countSkipped : Action Unit :=
  modify fun b => { b with tally := { b.tally with skipped := b.tally.skipped + 1 } }

/-- Carries something out and counts it; a refusal is reported with the line it comes from. -/
def reach (index : Nat) (source : String) (act : Action Unit) : Action Unit := fun b =>
  match act b with
  | .ok _ b => countExecuted b
  | .error (.refused why) b => (do note (.skipped index source why); countSkipped) b
  | .error stop b => .error stop b

def times : (n : Nat) → Action Unit → Action Unit
  | 0, _ => return
  | n + 1, act => do
    act
    times n act

/-- Carries out a line; `before` is what a replay on it replays. -/
def runLine (index : Nat) (line : ProgramLine) (before : Action Unit) : Action Unit :=
  reach index line.source <|
    match line.command with
    | .ok (.replay cycles) => do
      note (.replaying index cycles)
      times cycles before
    | .ok command => execute command
    | .error e => refuse (.line e)

/-- Carries out the first `n` lines of a program. -/
def runFront (p : Program) : (n : Nat) → Action Unit
  | 0 => return
  | n + 1 => do
    runFront p n
    match p[n]? with
    | some line => runLine n line (runFront p n)
    | none => return

/-- Runs a program with the driver energised, and says what it came to. -/
def run (p : Program) : Action Tally := do
  note (.runStarted p.length p.errorCount)
  modify ({ · with tally := {} })
  occasion .enable
  modify (·.energised true)
  runFront p p.length
  occasion .disable
  modify (·.energised false)
  let tally := (← get).tally
  note (.runFinished tally)
  return tally

end Action

end LoadBench
