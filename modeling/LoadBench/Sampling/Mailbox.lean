import LoadBench.Number.Single

/-!
# The mailbox of sample requests

One slot between the motion, which posts requests, and the sampling, which takes them. A request
that is not taken in time is overwritten by the next and lost; the motion never waits.
-/

namespace LoadBench

/-- Asks for one load sample at a position. -/
structure Request where
  /-- Number of the sample within its move, from 1. -/
  index : Nat
  position : Single

/-- One slot and its history in numbers. -/
structure Mailbox where
  pending : Option Request := none
  published : Nat := 0
  overwritten : Nat := 0
  taken : Nat := 0

namespace Mailbox

def publish (m : Mailbox) (r : Request) : Mailbox where
  pending := some r
  published := m.published + 1
  overwritten := m.overwritten + if m.pending.isSome then 1 else 0
  taken := m.taken

def take (m : Mailbox) : Mailbox where
  pending := none
  published := m.published
  overwritten := m.overwritten
  taken := m.taken + if m.pending.isSome then 1 else 0

end Mailbox

end LoadBench
