import LoadBench.Motion.Plan

/-!
# The simulated actuator

A stepper that takes one step per tick towards its target and knows how long the step lasts. The
fraction of a microsecond that a step leaves over is carried into the next, so that step periods
add up. It does not move while its speed is not positive.
-/

namespace LoadBench

/-- A stepper in simulated time. -/
structure Actuator where
  position : Steps := 0
  target : Steps := 0
  /-- Steps per second. -/
  speed : Single := 0
  /-- Fraction of a microsecond left over by the last step. -/
  carry : Double := 0
  enabled : Bool := false
  /-- Steps taken since the beginning. -/
  taken : Nat := 0

namespace Actuator

def toGo (a : Actuator) : Steps := a.target - a.position

def period (a : Actuator) : Double := 1000000 / a.speed.widen + a.carry

def steps (a : Actuator) : Bool := a.toGo != 0 && 0 < a.speed

/-- One tick: the actuator after it, and the whole microseconds it took. -/
def tick (a : Actuator) : Actuator × Nat :=
  if a.steps then
    let whole := a.period.floor
    ({ a with
        position := a.position + .ofInt a.toGo.toInt.sign
        taken := a.taken + 1
        carry := a.period - whole },
      whole.floorNat 0xFFFFFFFFFFFFFFFF)
  else
    (a, 0)

end Actuator

end LoadBench
