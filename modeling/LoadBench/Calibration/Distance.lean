import LoadBench.Bench.Move
import LoadBench.Calibration.Load

/-!
# Distance calibration

The actuator moves by a known number of steps, the operator says how far that was, and the quotient
becomes the steps per unit. What is no positive distance is asked for again.
-/

namespace LoadBench

structure DistanceReport where
  /-- Signed steps of the calibration move. -/
  commanded : Steps
  /-- Distance that the operator reported. -/
  observed : Single
  /-- Steps per unit before. -/
  previous : Single
  /-- Steps per unit now in force. -/
  stepsPerUnit : Single

/-- The steps per unit if so many steps made this distance, which has to be positive. -/
def observedStepsPerUnit (steps : Steps) (distance : Single) : Except CalibrationError Single :=
  if 0 < distance then .ok (.ofInt steps.toInt.natAbs / distance)
  else .error (.invalidObservedDistance distance)

namespace Action

/-- Asks for the distance through at most `replies` replies: the steps per unit, and the distance
they come from. -/
def distanceAmong (commanded : Steps) : (replies : Nat) → Action (Single × Single)
  | 0 => throw (.exhausted .delays)
  | replies + 1 => do
    note .enterDistance
    let distance ← awaitNumber
    match observedStepsPerUnit commanded distance with
    | .ok stepsPerUnit => return (stepsPerUnit, distance)
    | .error e =>
      note (.distanceRefused e)
      distanceAmong commanded replies

/-- Asks for the distance until it is positive. -/
def askDistance (commanded : Steps) : Action (Single × Single) := do
  distanceAmong commanded ((← get).operator.remaining + 1)

def calibrateDistance (target feedrate : Single) : Action DistanceReport := do
  let b ← get
  let previous := b.calibration.stepsPerUnit
  let commanded := stepsOf target previous - b.actuator.position
  if commanded = 0 then
    refuse (.setting (.invalidScaleFactor .stepsPerUnit 0))
  note (.distanceMove commanded)
  awaitAck
  let _ ← move target feedrate 0 previous
  let (stepsPerUnit, observed) ← askDistance commanded
  let _ ← accept .setting (← update [.stepsPerUnit stepsPerUnit])
  modify (·.rebased stepsPerUnit)
  note (.distanceCalibrated stepsPerUnit previous)
  return { commanded, observed, previous, stepsPerUnit }

end Action

end LoadBench
