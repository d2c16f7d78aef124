import LoadBench.Bench.Basic

/-!
# Waiting for the operator

A wait polls all sources, pauses, and polls again until there is a reply that will do.
-/

namespace LoadBench.Action

def pollOperator : Action (Option Reply) := do
  occasion .poll
  let b ← get
  let (round, operator) := b.operator.round
  let load := round.load.getD b.cell.load
  set { b with operator, cell := { b.cell with load } }
  round.notices.forM note
  return round.reply

def pollRounds : (rounds : Nat) → Action Reply
  | 0 => throw (.exhausted .delays)
  | rounds + 1 => do
    match ← pollOperator with
    | some r => return r
    | none =>
      let b ← get
      if b.operator.needsTyping then
        throw .awaitingOperator
      delay b.operator.pollMillis
      pollRounds rounds

/-- Waits for a reply. Each round but the last takes a delay, so the delays that are left bound the
rounds. -/
def awaitReply : Action Reply := do
  pollRounds ((← get).delaysLeft + 1)

/-- Waits for an acknowledgement. A number acknowledges too. -/
def awaitAck : Action Unit := do
  match ← awaitReply with
  | .proceed => return
  | .value v => note (.valueIgnored v)

/-- Waits for a number through at most `replies` replies. -/
def numberAmong : (replies : Nat) → Action Single
  | 0 => throw (.exhausted .delays)
  | replies + 1 => do
    match ← awaitReply with
    | .value v => return v
    | .proceed =>
      note .valueRequired
      numberAmong replies

/-- Waits for a number. Each reply is one of those that the sources can still give, so their number
bounds the replies. -/
def awaitNumber : Action Single := do
  numberAmong ((← get).operator.remaining + 1)

end LoadBench.Action
