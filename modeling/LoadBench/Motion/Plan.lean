import LoadBench.Error
import LoadBench.Units

/-!
# Planned moves

A move runs at constant speed from where the actuator stands to a target step.
-/

namespace LoadBench

structure Plan where
  start : Steps
  target : Steps
  /-- Steps per second. -/
  speed : Single

namespace Plan

/-- The move to a distance at a feedrate, which has to be positive. -/
def make (start : Steps) (target feedrate stepsPerUnit : Single) : Except MotionError Plan :=
  if 0 < feedrate then
    .ok ⟨start, stepsOf target stepsPerUnit, stepRate feedrate stepsPerUnit⟩
  else
    .error (.invalidFeedrate feedrate)

def delta (p : Plan) : Steps := p.target - p.start

def direction (p : Plan) : Direction := .ofSteps p.delta

def seconds (p : Plan) : Single := .ofInt p.delta.toInt.natAbs / p.speed

def micros (p : Plan) : Nat := ((p.seconds * 1000000).nearest 0 0xFFFFFFFFFFFFFFFF).toNat

end Plan

end LoadBench
