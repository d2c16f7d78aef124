import LoadBench.Motion.Plan

/-!
# When samples of a move fall due

Of `n` samples the first is requested at the start of the move, the last at its end, and the others
at whole multiples of an interval after the start, so that ticks that come late do not add up. A
single sample is requested at the end. What the move is too short for is left out, but the last
request has number `n` all the same.
-/

namespace LoadBench

structure Cadence where
  /-- How many samples the move has. -/
  total : Nat
  /-- Number of the next request. -/
  next : Nat
  /-- Microseconds between two requests. -/
  interval : Nat
  /-- When the last request was due. -/
  anchor : Nat
  /-- Requests made so far. -/
  published : Nat

namespace Cadence

/-- The samples of a move that starts now, if it has any. -/
def ofPlan? (samples : Int) (plan : Plan) (now : Nat) : Option Cadence :=
  if samples ≤ 0 then none
  else
    let total := samples.toNat
    some {
      total
      next := 1
      interval := if 2 < total then plan.micros / (total - 1) else 0
      anchor := now
      published := 0 }

def advance (c : Cadence) : Cadence := { c with next := c.next + 1, published := c.published + 1 }

def dueAtStart (c : Cadence) : Bool := 2 ≤ c.total && c.next == 1

def dueAtTick (c : Cadence) (now : Nat) : Bool :=
  2 < c.total && c.next < c.total && c.next != 1 && c.interval ≤ now - c.anchor

def dueAtEnd (c : Cadence) : Bool := c.next ≤ c.total

/-- The start of the move: the number of the request it makes, and the cadence after it. -/
def start (c : Cadence) (now : Nat) : Option Nat × Cadence :=
  if c.dueAtStart then (some c.next, { c.advance with anchor := now }) else (none, c)

def tick (c : Cadence) (now : Nat) : Option Nat × Cadence :=
  if c.dueAtTick now then (some c.next, { c.advance with anchor := c.anchor + c.interval })
  else (none, c)

def complete (c : Cadence) : Option Nat × Cadence :=
  if c.dueAtEnd then (some c.total, { c with next := c.total }.advance) else (none, c)

end Cadence

end LoadBench
