import LoadBench.Number.Single

/-!
# Steps and distances

The actuator counts whole steps; programs speak of distances. The steps per unit of distance join
the two. A step count has 64 bits. What a distance gives is brought into their range, but sums and
differences of counts wrap around, as they do in a build that does not check for overflow.
-/

namespace LoadBench

abbrev Steps := Int64

/-- A count stands for a number. -/
instance : Coe Steps Int := ⟨Int64.toInt⟩

/-- A number as a count, modulo 2 ^ 64. -/
instance : Coe Int Steps := ⟨Int64.ofInt⟩

theorem Steps.sub_eq_zero {m n : Steps} : m - n = 0 ↔ m = n := by
  rw [Int64.sub_eq_iff_eq_add, Int64.zero_add]

/-- The step nearest to a distance; halves go away from zero. -/
def stepsOf (distance stepsPerUnit : Single) : Steps :=
  (distance * stepsPerUnit).nearest (-0x8000000000000000) 0x7FFFFFFFFFFFFFFF

/-- The distance of a step from the origin. -/
def distanceOf (steps : Steps) (stepsPerUnit : Single) : Single := .ofInt steps / stepsPerUnit

/-- The steps per second of a feedrate, in distance per second. -/
def stepRate (feedrate stepsPerUnit : Single) : Single := feedrate * stepsPerUnit

inductive Direction where
  | forward
  | reverse
  deriving DecidableEq, Repr

namespace Direction

/-- The sense of a signed number of steps; none counts as forward. -/
def ofSteps (steps : Steps) : Direction := if 0 ≤ steps then .forward else .reverse

def sign : Direction → Int
  | .forward => 1
  | .reverse => -1

def name : Direction → String
  | .forward => "Forward"
  | .reverse => "Reverse"

end Direction

def Single.compare? (x y : Single) : Option Ordering := x.unpack.compare y.unpack

end LoadBench
