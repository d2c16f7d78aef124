import LoadBench.Operator.Channel
import Mathlib.Data.List.Rotate

/-!
# Calls at the operator desk

Calls for replies are served one after the other, and meanwhile other threads send replies and drop
their lines. What they do falls between any two polls, so a statement about all events at the desk
is a statement about all interleavings. No reply is lost, none is given twice, and those of one
source keep their order.
-/

namespace LoadBench

/-! ## What a source supplies -/

namespace Source

def supply : Source → List Reply
  | .scripted steps => steps.map ScriptStep.reply
  | .polled entries => entries.filterMap id
  | .line _ .closed => []
  | .line waiting _ => waiting
  | .typed lines => lines.filterMap fun l => Reply.ofLine l.text

/-- A poll takes the reply that it gives from the front of the supply. -/
theorem supply_poll (s : Source) : s.poll.reply.toList ++ s.poll.source.supply = s.supply := by
  cases s with
  | scripted steps => cases steps <;> rfl
  | polled entries =>
    rcases entries with _ | ⟨_ | r, rest⟩ <;> rfl
  | line waiting state => rcases waiting with _ | ⟨r, rest⟩ <;> cases state <;> rfl
  | typed lines =>
    cases lines with
    | nil => rfl
    | cons l rest =>
      cases h : Reply.ofLine l.text <;> simp [poll, forward, supply, h]

/-- A line gives what waits in it, also if its sender is gone. -/
theorem poll_line (waiting : List Reply) (state : LineState) :
    (line waiting state).poll.reply = (line waiting state).supply.head? := by
  rcases waiting with _ | ⟨r, rest⟩ <;> cases state <;> rfl

/-- Whether a poll finds a reply. What is left of a script, and what waits in a line, is there for the
next poll; a table says for each poll whether there is a reply, and a typed line is one or not. -/
def due : Source → Bool
  | .scripted steps => !steps.isEmpty
  | .polled entries => entries.head?.any Option.isSome
  | .line _ .closed => false
  | .line waiting _ => !waiting.isEmpty
  | .typed lines => lines.head?.any fun l => (Reply.ofLine l.text).isSome

/-- A poll gives the front of the supply if a reply is due. -/
theorem poll_of_due {s : Source} (h : s.due) :
    ∃ r, s.supply.head? = some r ∧ s.poll.reply = some r := by
  cases s with
  | scripted steps =>
    cases steps with
    | nil => cases h
    | cons step rest => exact ⟨step.reply, rfl, rfl⟩
  | polled entries =>
    rcases entries with _ | ⟨_ | r, rest⟩
    · cases h
    · cases h
    · exact ⟨r, rfl, rfl⟩
  | line waiting state =>
    cases waiting with
    | nil => cases state <;> cases h
    | cons r rest =>
      cases state with
      | closed => cases h
      | _ => exact ⟨r, rfl, rfl⟩
  | typed lines =>
    cases lines with
    | nil => cases h
    | cons l rest =>
      obtain ⟨r, hr⟩ := Option.isSome_iff_exists.1 h
      exact ⟨r, by simp [supply, hr], by simp [poll, forward, hr]⟩

/-- A poll gives nothing if no reply is due. -/
theorem poll_of_not_due {s : Source} (h : ¬ s.due) : s.poll.reply = none := by
  cases s with
  | scripted steps =>
    cases steps with
    | nil => rfl
    | cons step rest => exact absurd rfl h
  | polled entries =>
    rcases entries with _ | ⟨_ | r, rest⟩
    · rfl
    · rfl
    · exact absurd rfl h
  | line waiting state =>
    cases waiting with
    | nil => cases state <;> rfl
    | cons r rest =>
      cases state with
      | closed => rfl
      | _ => exact absurd rfl h
  | typed lines =>
    cases lines with
    | nil => rfl
    | cons l rest =>
      have hnone : Reply.ofLine l.text = none := by simpa [due] using h
      simp [poll, forward, hnone]

theorem supply_send (r : Reply) (s : Source) :
    (s.send r).2.supply = s.supply ++ if (s.send r).1 then [r] else [] := by
  cases s with
  | line waiting state => cases state <;> simp [send, supply]
  | _ => simp [send]

theorem supply_drop (s : Source) : s.drop.supply = s.supply := by
  cases s with
  | line waiting state => cases state <;> rfl
  | _ => rfl

end Source

namespace Channel

def supply (c : Channel) (i : Nat) : List Reply := (c.sources[i]?.map Source.supply).getD []

/-- The places that the next round polls, in order. -/
def places (c : Channel) : List Nat := order c.sources.length (c.next % c.sources.length)

def begun (c : Channel) : Channel :=
  if c.sources.length = 0 then c else { c with next := c.next % c.sources.length + 1 }

@[simp] theorem begun_sources (c : Channel) : c.begun.sources = c.sources := by
  unfold begun
  split <;> rfl

@[simp] theorem begun_pollMillis (c : Channel) : c.begun.pollMillis = c.pollMillis := by
  unfold begun
  split <;> rfl

/-- A round polls the places that it begins with. -/
theorem round_eq (c : Channel) : c.round =
    (pollAt c.places c.sources, { c.begun with sources := (pollAt c.places c.sources).sources }) := by
  unfold round begun places
  by_cases h : c.sources.length = 0
  · simp [h, order, pollAt]
  · simp [h]

theorem order_eq_rotate (count start : Nat) :
    order count start = (List.range count).rotate start := by
  refine List.ext_getElem (by simp [order]) fun k hk hk' => ?_
  simp [order, List.getElem_rotate, Nat.add_comm]

/-- A round has every place once. -/
theorem places_perm (c : Channel) : c.places.Perm (List.range c.sources.length) := by
  rw [places, order_eq_rotate]
  exact List.rotate_perm _ _

/-- Whether a reply that is sent to a place arrives there. -/
def accepts (c : Channel) (i : Nat) (r : Reply) : Bool := c.sources[i]?.any fun s => (s.send r).1

theorem supply_of_some {c : Channel} {i : Nat} {s : Source} (h : c.sources[i]? = some s) :
    c.supply i = s.supply := by
  rw [supply, h]
  rfl

theorem supply_set {c : Channel} {j : Nat} (s : Source) (h : j < c.sources.length) (i : Nat) :
    ({ c with sources := c.sources.set j s } : Channel).supply i =
      if j = i then s.supply else c.supply i := by
  unfold supply
  rw [List.getElem?_set]
  by_cases hi : j = i
  · simp [hi, hi ▸ h]
  · simp [hi]

/-- A reply that a source accepts stands at the end of its supply, and no other supply changes. -/
theorem supply_send (c : Channel) (j : Nat) (r : Reply) (i : Nat) :
    (c.modifySource j fun s => (s.send r).2).supply i =
      c.supply i ++ if j = i ∧ c.accepts j r then [r] else [] := by
  unfold modifySource supply accepts
  rw [List.getElem?_modify]
  by_cases hi : j = i
  · subst hi
    cases c.sources[j]? with
    | none => simp
    | some s => simp [Source.supply_send]
  · simp [hi]

theorem supply_drop (c : Channel) (j i : Nat) :
    (c.modifySource j Source.drop).supply i = c.supply i := by
  unfold modifySource supply
  rw [List.getElem?_modify]
  cases c.sources[i]? with
  | none => rfl
  | some s => by_cases hi : j = i <;> simp [hi, Source.supply_drop]

end Channel

/-! ## The desk -/

/-- What the operator is asked for. -/
inductive Call where
  /-- One round of polls, whether it brings a reply or not. -/
  | look
  | reply
  /-- Any reply acknowledges. -/
  | acknowledgement
  | number
  deriving DecidableEq, Repr

inductive Answer where
  | nothing
  | reply (r : Reply)
  | acknowledged
  | number (v : Single)

/-- The answer to a call after a round with or without a reply, unless the call goes on. -/
def Call.answer : Call → Option Reply → Option Answer
  | .look, none => some .nothing
  | .look, some r => some (.reply r)
  | .reply, some r => some (.reply r)
  | .acknowledgement, some _ => some .acknowledged
  | .number, some (.value v) => some (.number v)
  | _, _ => none

structure Poll where
  place : Nat
  reply : Option Reply

/-- What was done for a call. -/
structure Service where
  call : Call
  /-- The polls of each round that ended. -/
  rounds : List (List Poll) := []
  /-- Milliseconds of each pause. -/
  pauses : List Nat := []

/-- The service after one more round, with the pauses until then. -/
def Service.after (s : Service) (polls : List Poll) (pauses : List Nat) : Service :=
  { s with rounds := s.rounds ++ [polls], pauses }

inductive Stage where
  | between
  /-- In a round, after some polls and with some places left. -/
  | polling (polls : List Poll) (left : List Nat)

/-- The operator channel and the calls that are made at it. -/
structure Desk where
  channel : Channel
  underway : Option (Service × Stage) := none
  /-- The calls that were answered. -/
  served : List (Service × Answer) := []
  /-- The replies that were sent, each with the place of its line. -/
  sent : List (Nat × Reply) := []

/-- What happens at the desk. -/
inductive Event where
  /-- A call is made. While another is served it is not heard. -/
  | call (c : Call)
  /-- The call that is served gets on: a round begins, a source is polled, or a round ends. -/
  | work
  | send (place : Nat) (r : Reply)
  | drop (place : Nat)

namespace Desk

def serving (d : Desk) (s : Service) (stage : Stage) : Desk :=
  { d with underway := some (s, stage) }

/-- The desk after a round with these polls. An empty round is followed by a pause, unless the call
is answered. -/
def closed (d : Desk) (s : Service) (polls : List Poll) (reply : Option Reply) : Desk :=
  match s.call.answer reply with
  | some a => { d with underway := none, served := d.served ++ [(s.after polls s.pauses, a)] }
  | none =>
    let pauses := if reply.isNone then s.pauses ++ [d.channel.pollMillis] else s.pauses
    d.serving (s.after polls pauses) .between

/-- The desk after the poll of a place. A reply ends the round. -/
def polled (d : Desk) (s : Service) (polls : List Poll) (i : Nat) (left : List Nat) : Desk :=
  match d.channel.sources[i]? with
  | none => d.serving s (.polling polls left)
  | some source =>
    let p := source.poll
    let polls := polls ++ [⟨i, p.reply⟩]
    let d := { d with channel.sources := d.channel.sources.set i p.source }
    match p.reply with
    | some r => d.closed s polls (some r)
    | none => d.serving s (.polling polls left)

def worked (d : Desk) : Desk :=
  match d.underway with
  | none => d
  | some (s, .between) =>
    { d with channel := d.channel.begun }.serving s (.polling [] d.channel.places)
  | some (s, .polling polls []) => d.closed s polls none
  | some (s, .polling polls (i :: left)) => d.polled s polls i left

def step (d : Desk) : Event → Desk
  | .call c =>
    match d.underway with
    | none => d.serving { call := c } .between
    | some _ => d
  | .work => d.worked
  | .send i r => { d with
      channel := d.channel.modifySource i fun s => (s.send r).2
      sent := if d.channel.accepts i r then d.sent ++ [(i, r)] else d.sent }
  | .drop i => { d with channel := d.channel.modifySource i Source.drop }

def run (d : Desk) (events : List Event) : Desk := events.foldl step d

end Desk

/-! ## Nothing is lost -/

def Stage.polls : Stage → List Poll
  | .between => []
  | .polling polls _ => polls

namespace Desk

def polls (d : Desk) : List Poll :=
  d.served.flatMap (fun x => x.1.rounds.flatten) ++
    (d.underway.map fun x => x.1.rounds.flatten ++ x.2.polls).getD []

def taken (d : Desk) (i : Nat) : List Reply :=
  d.polls.filterMap fun p => if p.place = i then p.reply else none

def sentTo (d : Desk) (i : Nat) : List Reply :=
  d.sent.filterMap fun x => if x.1 = i then some x.2 else none

variable {d : Desk} {s : Service} {polls : List Poll} {i : Nat} {left : List Nat}

theorem closed_channel (reply : Option Reply) : (d.closed s polls reply).channel = d.channel := by
  unfold closed
  split <;> rfl

theorem closed_sent (reply : Option Reply) : (d.closed s polls reply).sent = d.sent := by
  unfold closed
  split <;> rfl

/-- The end of a round only files its polls. -/
theorem closed_polls (reply : Option Reply) : (d.closed s polls reply).polls =
    (d.serving s (.polling polls left)).polls := by
  unfold closed Desk.polls
  split <;> simp [Stage.polls, serving, Service.after]

/-- A poll that finds a source takes what the source gives. -/
theorem polled_of_some {source : Source} (h : d.channel.sources[i]? = some source) :
    (d.polled s polls i left).channel =
        { d.channel with sources := d.channel.sources.set i source.poll.source } ∧
      (d.polled s polls i left).sent = d.sent ∧
      (d.polled s polls i left).polls =
        (d.serving s (.polling (polls ++ [⟨i, source.poll.reply⟩]) left)).polls := by
  unfold polled
  rw [h]
  dsimp only
  split
  · next r hr =>
    rw [hr]
    exact ⟨closed_channel _, closed_sent _, closed_polls _⟩
  · next hr => exact ⟨rfl, rfl, by rw [hr]; rfl⟩

/-- What was taken from each place and what it can still give are what it could give at first and
what was sent to it. -/
def Ledger (c : Channel) (d : Desk) : Prop :=
  ∀ i, d.taken i ++ d.channel.supply i = c.supply i ++ d.sentTo i

theorem taken_append (p : Poll) (j : Nat) :
    (d.serving s (.polling (polls ++ [p]) left)).taken j =
      (d.serving s (.polling polls left)).taken j ++
        if p.place = j then p.reply.toList else [] := by
  simp only [taken, Desk.polls, serving, Stage.polls, Option.map_some, Option.getD_some,
    List.filterMap_append, List.append_assoc]
  by_cases hp : p.place = j
  · cases hr : p.reply <;> simp [hp, hr]
  · simp [hp]

/-- The poll of a place takes from there what its source gives, and nothing anywhere else. -/
theorem polled_taken {source : Source} (h : d.channel.sources[i]? = some source) (j : Nat) :
    (d.polled s polls i left).taken j = (d.serving s (.polling polls left)).taken j ++
      if i = j then source.poll.reply.toList else [] := by
  rw [taken, (polled_of_some h).2.2]
  exact taken_append _ j

/-- A poll books the reply that it takes to the source that had it. -/
theorem polled_ledger {c : Channel} (hd : (d.serving s (.polling polls left)).Ledger c) :
    (d.polled s polls i left).Ledger c := by
  intro j
  cases h : d.channel.sources[i]? with
  | none =>
    rw [polled, h]
    exact hd j
  | some source =>
    have hsent : (d.polled s polls i left).sentTo j = d.sentTo j := by
      rw [sentTo, (polled_of_some h).2.1, sentTo]
    have hlt : i < d.channel.sources.length := (List.getElem?_eq_some_iff.1 h).1
    rw [polled_taken h, (polled_of_some h).1, Channel.supply_set _ hlt, hsent]
    refine Eq.trans ?_ (hd j)
    by_cases hj : i = j
    · subst hj
      rw [if_pos rfl, if_pos rfl, List.append_assoc, source.supply_poll]
      exact congrArg _ (Channel.supply_of_some h).symm
    · rw [if_neg hj, if_neg hj, List.append_nil]
      rfl

theorem Ledger.of_same {c : Channel} {d' : Desk} (hd : d.Ledger c) (hpolls : d'.polls = d.polls)
    (hsources : d'.channel.sources = d.channel.sources) (hsent : d'.sent = d.sent) :
    d'.Ledger c := by
  intro i
  have hsupply : d'.channel.supply i = d.channel.supply i := by
    rw [Channel.supply, hsources, Channel.supply]
  rw [taken, hpolls, hsupply, sentTo, hsent]
  exact hd i

theorem polls_of_underway {stage : Stage} (h : d.underway = some (s, stage)) :
    d.polls = (d.serving s stage).polls := by
  rw [Desk.polls, h]
  rfl

/-- One step of the call under way keeps the books. -/
theorem worked_ledger {c : Channel} (hd : d.Ledger c) : d.worked.Ledger c := by
  unfold worked
  split
  · exact hd
  · next s h =>
    exact hd.of_same (by rw [polls_of_underway h]; rfl) (Channel.begun_sources _) rfl
  · next s polls h =>
    refine hd.of_same ?_ (by rw [closed_channel]) (closed_sent _)
    rw [closed_polls, polls_of_underway h]
  · next s polls i left h =>
    exact polled_ledger (hd.of_same (by rw [polls_of_underway h]; rfl) rfl rfl)

/-- The books are kept whatever the event. -/
theorem step_ledger {c : Channel} (hd : d.Ledger c) (e : Event) : (d.step e).Ledger c := by
  cases e with
  | call call =>
    rw [step]
    split
    · next h => exact hd.of_same (by simp [Desk.polls, serving, h, Stage.polls]) rfl rfl
    · exact hd
  | work => exact worked_ledger hd
  | send j r =>
    intro i
    have hsent : (d.step (.send j r)).sentTo i =
        d.sentTo i ++ if j = i ∧ d.channel.accepts j r then [r] else [] := by
      cases ha : d.channel.accepts j r with
      | false => simp [step, sentTo, ha]
      | true =>
        by_cases hi : j = i
        · subst hi
          simp [step, sentTo, ha]
        · simp [step, sentTo, ha, hi]
    rw [hsent, ← List.append_assoc, ← hd i, List.append_assoc]
    exact congrArg _ (d.channel.supply_send j r i)
  | drop j =>
    intro i
    refine Eq.trans ?_ (hd i)
    exact congrArg _ (d.channel.supply_drop j i)

theorem run_ledger (c : Channel) (events : List Event) :
    (({ channel := c } : Desk).run events).Ledger c := by
  have hstart : ({ channel := c } : Desk).Ledger c := fun i => (List.append_nil _).symm
  exact List.foldlRecOn events step hstart fun _ hd e _ => step_ledger hd e

end Desk

end LoadBench
