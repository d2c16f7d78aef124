import LoadBench.Bench.Operator

/-!
# Load calibration

Two points, no load and a reference load, give the offset and the divider of the load cell. The
procedure goes through its phases one at a time and writes the constants in the last; a refusal
leaves it in its phase and everything else as it was.
-/

namespace LoadBench

inductive LoadPhase where
  | awaitZero
  | measureZero
  | awaitLoad
  | measureLoad
  | compute
  | apply
  | done
  deriving DecidableEq, Repr

def LoadPhase.name : LoadPhase → String
  | .awaitZero => "AwaitZero"
  | .measureZero => "MeasureZero"
  | .awaitLoad => "AwaitKnownLoad"
  | .measureLoad => "MeasureKnownLoad"
  | .compute => "Compute"
  | .apply => "Apply"
  | .done => "Done"

structure LoadConstants where
  offset : Single
  divider : Single

/-- The constants from the mean readings without load and under the reference load, which has to be
positive. -/
def LoadConstants.ofMeans (zero loaded reference : Single) :
    Except CalibrationError LoadConstants :=
  if 0 < reference then .ok ⟨zero, (loaded - zero) / reference⟩
  else .error (.invalidReferenceLoad reference)

structure LoadCalibration where
  reference : Single
  phase : LoadPhase := .awaitZero
  zeroMean : Single := 0
  loadMean : Single := 0
  computed : Option LoadConstants := none

namespace Action

def update (changes : List Calibration.Change) : Action (Except SettingError Calibration) := do
  occasion .change
  let b ← get
  match b.calibration.update changes with
  | .ok c =>
    set { b with calibration := c }
    return .ok c
  | .error e => return .error e

def setDriverScale (v : Single) : Action Unit :=
  modify fun b => { b with cell := { b.cell with driverScale := v } }

def setDriverOffset (v : Single) : Action Unit :=
  modify fun b => { b with cell := { b.cell with driverOffset := v } }

def meanReading : Action Single := do
  let p := (← get).procedure
  pausedMean readCell (delay p.spacingMillis) p.readings

end Action

namespace LoadCalibration

open LoadBench.Action

/-- Goes through one phase. A refusal changes nothing. -/
def step (m : LoadCalibration) : Action (Except Refusal LoadCalibration) := do
  match m.phase with
  | .awaitZero =>
    note .removeLoad
    awaitAck
    return .ok { m with phase := .measureZero }
  | .measureZero =>
    let mean ← meanReading
    note (.zeroReading mean)
    return .ok { m with phase := .awaitLoad, zeroMean := mean }
  | .awaitLoad =>
    note (.applyLoad m.reference)
    awaitAck
    return .ok { m with phase := .measureLoad }
  | .measureLoad =>
    let mean ← meanReading
    note (.loadedReading mean)
    return .ok { m with phase := .compute, loadMean := mean }
  | .compute =>
    match LoadConstants.ofMeans m.zeroMean m.loadMean m.reference with
    | .ok k =>
      note (.loadConstants k.offset k.divider)
      return .ok { m with phase := .apply, computed := some k }
    | .error e => return .error (.calibration e)
  | .apply =>
    match m.computed with
    | some k =>
      match ← update [.scaleDivider k.divider, .offset k.offset] with
      | .ok _ =>
        setDriverScale k.divider
        setDriverOffset k.offset
        note (.loadCalibrated k.offset k.divider)
        return .ok { m with phase := .done }
      | .error e => return .error (.setting e)
    | none => return .ok { m with phase := .done }
  | .done => return .ok m

/-- At most `steps` steps, until the calibration is done or refused: where it stands, and the
refusal. -/
def steps : (steps : Nat) → LoadCalibration → Action (LoadCalibration × Option Refusal)
  | 0, m => return (m, none)
  | n + 1, m => do
    match ← m.step with
    | .ok m => if m.phase = .done then return (m, none) else steps n m
    | .error e => return (m, some e)

/-- All phases that are left. There are seven. -/
def run (m : LoadCalibration) : Action (LoadCalibration × Option Refusal) := steps 7 m

/-- What a run answers: its refusal, or the constants that are in force at its end. -/
def answer : Option Refusal → Action (Except Refusal Calibration)
  | none => return .ok (← get).calibration
  | some why => return .error why

def complete (m : LoadCalibration) : Action (LoadCalibration × Except Refusal Calibration) := do
  let (m, refusal) ← m.run
  return (m, ← answer refusal)

end LoadCalibration

end LoadBench
