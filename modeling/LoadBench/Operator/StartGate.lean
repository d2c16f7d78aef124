import LoadBench.Operator.Source

/-!
# The start gate

A run waits until one of several triggers asserts. Every pass checks every trigger, those after the
first that asserts too, and the least of those that assert opens the gate. Between passes the gate
pauses.
-/

namespace LoadBench

inductive Trigger where
  | flag (up : Bool)
  /-- Asserts after so many checks that do not. -/
  | countdown (checks : Nat)
  /-- Takes any reply for a start signal. -/
  | reply (source : Source)

/-- Whether the trigger asserts, and the trigger after the check. -/
def Trigger.check : Trigger → Bool × Trigger
  | .flag up => (up, .flag up)
  | .countdown 0 => (true, .countdown 0)
  | .countdown (n + 1) => (false, .countdown n)
  | .reply s =>
    let p := s.poll
    (p.reply.isSome, .reply p.source)

namespace StartGate

variable {τ : Type} (check : τ → Bool × τ)

/-- One pass over all triggers: the least that asserts, and the triggers after it. -/
def pass : List τ → Option Nat × List τ
  | [] => (none, [])
  | t :: ts =>
    let (asserted, t) := check t
    let (later, ts) := pass ts
    (if asserted then some 0 else later.map (· + 1), t :: ts)

structure Opening (τ : Type) where
  /-- The trigger that opened the gate, if one did. -/
  trigger : Option Nat
  triggers : List τ
  /-- Milliseconds of each pause. -/
  delays : List Nat

def Opening.pauses {τ : Type} (o : Opening τ) : Nat := o.delays.length

/-- Passes with pauses of so many milliseconds between them, until a trigger asserts or `allowance`
pauses were made. -/
def wait (allowance : Nat) (ts : List τ) (millis : Nat := 10) : Opening τ :=
  match allowance with
  | 0 =>
    let (fired, ts) := pass check ts
    ⟨fired, ts, []⟩
  | n + 1 =>
    match pass check ts with
    | (some i, ts) => ⟨some i, ts, []⟩
    | (none, ts) =>
      let o := wait n ts millis
      { o with delays := millis :: o.delays }

def summary (ts : List τ) : String := s!"StartGate \x7b triggers: {ts.length} \x7d"

end StartGate

end LoadBench
