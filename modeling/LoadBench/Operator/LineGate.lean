import LoadBench.Operator.Reply

/-!
# Lines before and after the start

A line that is read before the run has started asks for the start and is nothing else. Later lines
are replies, or are ignored.
-/

namespace LoadBench

inductive Reader where
  | stdin
  /-- The second input, which the run was told to read. -/
  | pipe
  deriving DecidableEq, Repr

def Reader.name : Reader → String
  | .stdin => "stdin"
  | .pipe => "operator-pipe"

/-- A line that an operator typed, and the reader that got it. -/
structure TypedLine where
  reader : Reader
  text : String
  deriving DecidableEq, Repr

inductive Forwarded where
  /-- The line asks for the start. -/
  | startRequest
  | reply (r : Reply)
  /-- The line is no reply. -/
  | ignored

/-- What becomes of a line that a reader gets when the run has or has not `started`. -/
def forward (started : Bool) (line : String) : Forwarded :=
  if started then
    match Reply.ofLine line with
    | some r => .reply r
    | none => .ignored
  else
    .startRequest

end LoadBench
