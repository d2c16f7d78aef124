import LoadBench.Operator.Source

/-!
# The operator channel

Any number of sources, polled in turn: each round of polls starts with the source after the one
that the last round started with, so that none is preferred. A round ends with the first reply.
-/

namespace LoadBench

structure Channel where
  sources : List Source := []
  /-- Pause between rounds, in milliseconds. -/
  pollMillis : Nat
  /-- The next round starts here, counted modulo the number of sources. -/
  next : Nat := 0

structure Round where
  reply : Option Reply := none
  load : Option Single := none
  notices : List Notice := []
  sources : List Source

namespace Channel

/-- Polls the sources at the given places until one replies. -/
def pollAt : List Nat → List Source → Round
  | [], ss => { sources := ss }
  | i :: is, ss =>
    match ss[i]? with
    | none => pollAt is ss
    | some s =>
      let p := s.poll
      let ss := ss.set i p.source
      match p.reply with
      | some r => { reply := some r, load := p.load, notices := p.notice.toList, sources := ss }
      | none =>
        let later := pollAt is ss
        { later with notices := p.notice.toList ++ later.notices }

def order (count start : Nat) : List Nat := (List.range count).map fun i => (start + i) % count

def round (c : Channel) : Round × Channel :=
  let count := c.sources.length
  if count = 0 then ({ sources := c.sources }, c)
  else
    let start := c.next % count
    let r := pollAt (order count start) c.sources
    (r, { c with sources := r.sources, next := start + 1 })

def modifySource (c : Channel) (i : Nat) (f : Source → Source) : Channel :=
  { c with sources := c.sources.modify i f }

/-- How many replies these sources can still give at most. -/
def total (ss : List Source) : Nat := ss.foldr (fun s n => s.remaining + n) 0

def remaining (c : Channel) : Nat := total c.sources

/-- Whether no source can reply before the operator types another line. -/
def needsTyping (c : Channel) : Bool :=
  !c.sources.isEmpty && c.sources.all Source.needsTyping

def summary (c : Channel) : String :=
  s!"OperatorChannel \x7b sources: {c.sources.length}, poll_interval_ms: {c.pollMillis} \x7d"

end Channel

end LoadBench
