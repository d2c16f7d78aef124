import LoadBench.Proofs.Calls
import LoadBench.Proofs.Frame

/-!
# Waits of a run

A run that waits for the operator makes calls at a desk, and while it waits nothing is sent. Each
wait polls, pauses and answers as a desk that serves its call.
-/

namespace LoadBench

/-! ## Serving a call -/

namespace Desk

/-- The second desk comes from the first by serving its call. -/
def Works (d d' : Desk) : Prop := ∃ k, d.run (List.replicate k .work) = d'

theorem Works.refl (d : Desk) : d.Works d := ⟨0, rfl⟩

theorem Works.trans {d d' d'' : Desk} (h : d.Works d') (h' : d'.Works d'') : d.Works d'' := by
  obtain ⟨k, rfl⟩ := h
  obtain ⟨k', rfl⟩ := h'
  exact ⟨k + k', by simp only [run, ← List.replicate_append_replicate, List.foldl_append]⟩

theorem works_worked (d : Desk) : d.Works d.worked := ⟨1, rfl⟩

def withSources (d : Desk) (ss : List Source) : Desk := { d with channel.sources := ss }

/-- The desk after the last poll of a round, which is over only if that poll brought a reply. -/
def polledOut (d : Desk) (s : Service) (polls : List Poll) : Option Reply → Desk
  | some r => d.closed s polls (some r)
  | none => d.serving s (.polling polls [])

/-- The places that are left of a round are polled until one replies. -/
theorem polling_works (left : List Nat) (d : Desk) (s : Service) (polls : List Poll) :
    let r := Channel.pollAt left d.channel.sources
    ∃ polls', (d.serving s (.polling polls left)).Works
      ((d.withSources r.sources).polledOut s polls' r.reply) := by
  induction left generalizing d polls with
  | nil => exact ⟨polls, .refl _⟩
  | cons i left ih =>
    have hfirst := (d.serving s (.polling polls (i :: left))).works_worked
    rw [show (d.serving s (.polling polls (i :: left))).worked = d.polled s polls i left from rfl,
      polled] at hfirst
    rw [Channel.pollAt]
    cases h : d.channel.sources[i]? with
    | none =>
      rw [h] at hfirst
      obtain ⟨polls', hlater⟩ := ih d polls
      exact ⟨polls', hfirst.trans hlater⟩
    | some source =>
      rw [h] at hfirst
      dsimp only at hfirst ⊢
      cases hr : source.poll.reply with
      | some reply =>
        rw [hr] at hfirst
        exact ⟨_, hfirst⟩
      | none =>
        rw [hr] at hfirst
        obtain ⟨polls', hlater⟩ := ih (d.withSources (d.channel.sources.set i source.poll.source)) _
        exact ⟨polls', hfirst.trans hlater⟩

theorem round_works (d : Desk) (s : Service) : ∃ polls, (d.serving s .between).Works
    ({ d with channel := d.channel.round.2 }.polledOut s polls d.channel.round.1.reply) := by
  have hbegun := (d.serving s .between).works_worked
  obtain ⟨polls, hpolled⟩ :=
    polling_works d.channel.places { d with channel := d.channel.begun } s []
  rw [Channel.begun_sources] at hpolled
  rw [Channel.round_eq]
  exact ⟨polls, hbegun.trans hpolled⟩

end Desk

/-! ## Replies that are left -/

theorem Source.remaining_poll (s : Source) :
    s.poll.source.remaining + s.poll.reply.toList.length ≤ s.remaining := by
  cases s with
  | scripted steps => cases steps <;> simp [poll, remaining]
  | polled entries => rcases entries with _ | ⟨_ | r, rest⟩ <;> simp [poll, remaining]
  | line waiting state => rcases waiting with _ | ⟨r, rest⟩ <;> cases state <;> simp [poll, remaining]
  | typed lines =>
    cases lines with
    | nil => simp [poll, remaining]
    | cons l rest => cases h : Reply.ofLine l.text <;> simp [poll, forward, remaining, h]

namespace Channel

theorem total_set {ss : List Source} {i : Nat} {s : Source} (h : ss[i]? = some s) (s' : Source) :
    total (ss.set i s') + s.remaining = total ss + s'.remaining := by
  induction ss generalizing i with
  | nil => cases h
  | cons t ss ih =>
    cases i with
    | zero =>
      cases h
      simp only [total, List.set_cons_zero, List.foldr_cons]
      omega
    | succ i =>
      have hrest := ih (i := i) h
      simp only [total, List.set_cons_succ, List.foldr_cons] at hrest ⊢
      omega

/-- A round takes at least its reply from what the sources have left. -/
theorem total_pollAt (places : List Nat) (ss : List Source) :
    total (pollAt places ss).sources + (pollAt places ss).reply.toList.length ≤ total ss := by
  induction places generalizing ss with
  | nil => exact Nat.le_refl _
  | cons i is ih =>
    rw [pollAt]
    cases h : ss[i]? with
    | none => exact ih ss
    | some s =>
      have hpoll := s.remaining_poll
      have hset := total_set h s.poll.source
      dsimp only
      cases hr : s.poll.reply with
      | some r =>
        rw [hr] at hpoll
        dsimp only
        omega
      | none =>
        have hlater := ih (ss.set i s.poll.source)
        rw [hr] at hpoll
        dsimp only
        omega

/-- A round leaves fewer replies if it brought one. -/
theorem remaining_round (c : Channel) :
    c.round.2.remaining + c.round.1.reply.toList.length ≤ c.remaining := by
  rw [round_eq]
  exact total_pollAt _ _

end Channel

/-! ## Waits -/

def Bench.desk (b : Bench) : Desk := { channel := b.operator }

theorem Bench.desk_congr {b b' : Bench} (h : b'.operator = b.operator) : b'.desk = b.desk :=
  congrArg (fun c => ({ channel := c } : Desk)) h

/-- Only the sampling and the log may have gone on. -/
structure Bench.Idled (b b' : Bench) : Prop where
  operator : b'.operator = b.operator
  delays : b'.delays = b.delays
  delaysLeft : b'.delaysLeft = b.delaysLeft

theorem Bench.afterOccasion_idled (b : Bench) (o : Occasion) : b.Idled (b.afterOccasion o) := by
  obtain ⟨_, _, _, _, _, heq, _⟩ := b.afterOccasion_attended o
  rw [heq]
  exact ⟨rfl, rfl, rfl⟩

namespace Action

variable {b b' : Bench}

theorem notes_ok (ns : List Notice) (b : Bench) : ∃ b', ns.forM note b = .ok () b' ∧ b.Idled b' := by
  induction ns generalizing b with
  | nil => exact ⟨b, rfl, rfl, rfl, rfl⟩
  | cons n ns ih =>
    obtain ⟨b', hlater, hidled⟩ := ih (b.noted n)
    exact ⟨b', hlater, hidled.operator, hidled.delays, hidled.delaysLeft⟩

/-- A look makes one round. -/
theorem pollOperator_ok (b : Bench) : ∃ b', pollOperator b = .ok b.operator.round.1.reply b' ∧
    b'.operator = b.operator.round.2 ∧ b'.delays = b.delays ∧ b'.delaysLeft = b.delaysLeft := by
  have hidled := b.afterOccasion_idled .poll
  obtain ⟨b', hnotes, hnoted⟩ := notes_ok (b.afterOccasion .poll).operator.round.1.notices
    (Effect.poll.apply (b.afterOccasion .poll))
  refine ⟨b', ?_, ?_, hnoted.delays.trans hidled.delays, hnoted.delaysLeft.trans hidled.delaysLeft⟩
  · rw [pollOperator_eq, occasion_bind_apply, get_bind_apply]
    change ((_ : Action Unit) >>= _) (Effect.poll.apply (b.afterOccasion .poll)) = _
    rw [bind_of_ok hnotes, hidled.operator]
    rfl
  · rw [hnoted.operator, ← hidled.operator]
    rfl

/-- A round of the operator is the polls of the desk, one after the other. -/
theorem pollOperator_works (b : Bench) (s : Service) : ∃ reply b' polls,
    pollOperator b = .ok reply b' ∧ b'.delays = b.delays ∧ b'.delaysLeft = b.delaysLeft ∧
      b'.operator.remaining + reply.toList.length ≤ b.operator.remaining ∧
      (b.desk.serving s .between).Works (b'.desk.polledOut s polls reply) := by
  obtain ⟨b', hlook, hoperator, hdelays, hdelaysLeft⟩ := pollOperator_ok b
  obtain ⟨polls, hworks⟩ := b.desk.round_works s
  refine ⟨b.operator.round.1.reply, b', polls, hlook, hdelays, hdelaysLeft, ?_, ?_⟩
  · rw [hoperator]
    exact b.operator.remaining_round
  · have hdesk : b'.desk = { b.desk with channel := b.desk.channel.round.2 } := by
      rw [Bench.desk, hoperator]
      rfl
    rw [hdesk]
    exact hworks

theorem delay_ok {millis : Nat} (h : delay millis b = .ok () b') : b'.operator = b.operator ∧
    b'.delays = b.delays.push millis ∧ b'.delaysLeft + 1 = b.delaysLeft := by
  have hidled := b.afterOccasion_idled .delay
  rw [delay_eq, occasion_bind_apply, get_bind_apply] at h
  split at h
  · cases h
  · next hleft =>
    cases h
    refine ⟨hidled.operator, congrArg (·.push millis) hidled.delays, ?_⟩
    have := hidled.delaysLeft
    simp only [Effect.apply]
    omega

theorem delay_error {millis : Nat} {e : Stop} (h : delay millis b = .error e b') :
    e = .exhausted .delays ∧ b.Idled b' ∧ b'.delaysLeft = 0 := by
  rw [delay_eq, occasion_bind_apply, get_bind_apply] at h
  split at h
  · next hleft =>
    cases h
    exact ⟨rfl, b.afterOccasion_idled .delay, hleft⟩
  · cases h

/-- A wait for a reply begins with a look. -/
theorem pollRounds_apply {reply : Option Reply} (h : pollOperator b = .ok reply b') (rounds : Nat) :
    pollRounds (rounds + 1) b =
      match reply with
      | some r => .ok r b'
      | none =>
        if b'.operator.needsTyping then .error .awaitingOperator b'
        else (do delay b'.operator.pollMillis; pollRounds rounds) b' := by
  rw [pollRounds, bind_of_ok h]
  cases reply with
  | some r => rfl
  | none =>
    dsimp only
    rw [get_bind_apply]
    split <;> rfl

/-- A wait that is paused goes on with another round. -/
theorem pause_works {s : Service} {polls : List Poll} (hs : s.call ≠ .look)
    (h : delay b.operator.pollMillis b = .ok () b') : (b.desk.serving s (.polling polls [])).Works
      (b'.desk.serving (s.after polls (s.pauses ++ [b.operator.pollMillis])) .between) := by
  have hanswer : s.call.answer none = none := by
    cases hc : s.call with
    | look => exact absurd hc hs
    | _ => rfl
  have hworked : (b.desk.serving s (.polling polls [])).worked =
      b.desk.serving (s.after polls (s.pauses ++ [b.operator.pollMillis])) .between := by
    change b.desk.closed s polls none = _
    rw [Desk.closed, hanswer]
    rfl
  rw [Bench.desk_congr (delay_ok h).1, ← hworked]
  exact Desk.works_worked _

/-- Rounds that end with a reply are steps of the desk up to the end of its call. -/
theorem pollRounds_ok {rounds : Nat} {r : Reply} (h : pollRounds rounds b = .ok r b')
    {s : Service} (hs : s.call ≠ .look) {before : List Nat}
    (hb : b.delays.toList = before ++ s.pauses) :
    ∃ s' polls, (b.desk.serving s .between).Works (b'.desk.closed s' polls (some r)) ∧
      s'.call = s.call ∧ b'.delays.toList = before ++ s'.pauses ∧
      b'.operator.remaining < b.operator.remaining := by
  induction rounds generalizing b s with
  | zero => cases h
  | succ rounds ih =>
    obtain ⟨reply, b₁, polls, hlook, hdelays, _, hremaining, hworks⟩ := pollOperator_works b s
    rw [pollRounds_apply hlook] at h
    cases reply with
    | some r' =>
      cases h
      exact ⟨s, polls, hworks, rfl, by rw [hdelays, hb], hremaining⟩
    | none =>
      dsimp only at h
      split at h
      · cases h
      · obtain ⟨_, b₂, hpause, hlater⟩ := bind_eq_ok.1 h
        obtain ⟨hoperator, hpaused, _⟩ := delay_ok hpause
        obtain ⟨s', polls', hworks', hcall, hdelays', hless⟩ :=
          ih hlater (s := s.after polls (s.pauses ++ [b₁.operator.pollMillis])) hs
            (by simp [Service.after, hpaused, hdelays, hb])
        refine ⟨s', polls', hworks.trans ((pause_works hs hpause).trans hworks'), hcall, hdelays', ?_⟩
        rw [hoperator] at hless
        exact Nat.lt_of_lt_of_le hless hremaining

/-- Why a wait stops before it has its reply: its delays are used up, or only typing could help. -/
def Stuck (e : Stop) (b : Bench) : Prop :=
  (e = .exhausted .delays ∧ b.delaysLeft = 0) ∨
    (e = .awaitingOperator ∧ b.operator.needsTyping)

/-- Rounds that never end are steps of the desk inside its call. -/
theorem pollRounds_error {rounds : Nat} {e : Stop} (h : pollRounds rounds b = .error e b')
    (hrounds : b.delaysLeft < rounds) {s : Service} (hs : s.call ≠ .look) {before : List Nat}
    (hb : b.delays.toList = before ++ s.pauses) :
    ∃ s' polls, (b.desk.serving s .between).Works (b'.desk.serving s' (.polling polls [])) ∧
      b'.delays.toList = before ++ s'.pauses ∧ Stuck e b' := by
  induction rounds generalizing b s with
  | zero => exact absurd hrounds (Nat.not_lt_zero _)
  | succ rounds ih =>
    obtain ⟨reply, b₁, polls, hlook, hdelays, hleft, _, hworks⟩ := pollOperator_works b s
    rw [pollRounds_apply hlook] at h
    cases reply with
    | some r => cases h
    | none =>
      dsimp only at h
      split at h
      · next htyping =>
        cases h
        exact ⟨s, polls, hworks, by rw [hdelays, hb], .inr ⟨rfl, htyping⟩⟩
      · rcases bind_eq_error.1 h with hpause | ⟨_, b₂, hpause, hlater⟩
        · obtain ⟨rfl, hidled, hnone⟩ := delay_error hpause
          refine ⟨s, polls, ?_, by rw [hidled.delays, hdelays, hb], .inl ⟨rfl, hnone⟩⟩
          rw [Bench.desk_congr hidled.operator]
          exact hworks
        · obtain ⟨_, hpaused, hfewer⟩ := delay_ok hpause
          obtain ⟨s', polls', hworks', hdelays', hstuck⟩ := ih hlater (by omega)
            (s := s.after polls (s.pauses ++ [b₁.operator.pollMillis])) hs
            (by simp [Service.after, hpaused, hdelays, hb])
          exact ⟨s', polls', hworks.trans ((pause_works hs hpause).trans hworks'), hdelays', hstuck⟩

theorem awaitReply_ok {r : Reply} (h : awaitReply b = .ok r b') {s : Service}
    (hs : s.call ≠ .look) {before : List Nat} (hb : b.delays.toList = before ++ s.pauses) :
    ∃ s' polls, (b.desk.serving s .between).Works (b'.desk.closed s' polls (some r)) ∧
      s'.call = s.call ∧ b'.delays.toList = before ++ s'.pauses ∧
      b'.operator.remaining < b.operator.remaining := by
  rw [awaitReply, get_bind_apply] at h
  exact pollRounds_ok h hs hb

theorem awaitReply_error {e : Stop} (h : awaitReply b = .error e b') {s : Service}
    (hs : s.call ≠ .look) {before : List Nat} (hb : b.delays.toList = before ++ s.pauses) :
    ∃ s' polls, (b.desk.serving s .between).Works (b'.desk.serving s' (.polling polls [])) ∧
      b'.delays.toList = before ++ s'.pauses ∧ Stuck e b' := by
  rw [awaitReply, get_bind_apply] at h
  exact pollRounds_error h (Nat.lt_succ_self _) hs hb

/-- A wait for a number goes on after an empty line. -/
theorem closed_proceed {s : Service} (hs : s.call = .number) (polls : List Poll) :
    b.desk.closed s polls (some .proceed) =
      (b.noted .valueRequired).desk.serving (s.after polls s.pauses) .between := by
  rw [Desk.closed, hs]
  rfl

/-- Waiting for a number is one call, whatever it passes over. -/
theorem numberAmong_ok {replies : Nat} {v : Single} (h : numberAmong replies b = .ok v b')
    {s : Service} (hs : s.call = .number) {before : List Nat}
    (hb : b.delays.toList = before ++ s.pauses) :
    ∃ s' polls, (b.desk.serving s .between).Works (b'.desk.closed s' polls (some (.value v))) ∧
      s'.call = .number ∧ b'.delays.toList = before ++ s'.pauses := by
  induction replies generalizing b s with
  | zero => cases h
  | succ replies ih =>
    rw [numberAmong] at h
    obtain ⟨r, b₁, hreply, h⟩ := bind_eq_ok.1 h
    obtain ⟨s₁, polls, hworks, hcall, hdelays, _⟩ := awaitReply_ok hreply (by simp [hs]) hb
    rw [hs] at hcall
    cases r with
    | value w =>
      cases h
      exact ⟨s₁, polls, hworks, hcall, hdelays⟩
    | proceed =>
      rw [closed_proceed hcall] at hworks
      obtain ⟨s₂, polls', hworks', hcall', hdelays'⟩ :=
        ih h (s := s₁.after polls s₁.pauses) hcall hdelays
      exact ⟨s₂, polls', hworks.trans hworks', hcall', hdelays'⟩

theorem numberAmong_error {replies : Nat} {e : Stop} (h : numberAmong replies b = .error e b')
    (hreplies : b.operator.remaining < replies) {s : Service} (hs : s.call = .number)
    {before : List Nat} (hb : b.delays.toList = before ++ s.pauses) :
    ∃ s' polls, (b.desk.serving s .between).Works (b'.desk.serving s' (.polling polls [])) ∧
      b'.delays.toList = before ++ s'.pauses ∧ Stuck e b' := by
  induction replies generalizing b s with
  | zero => exact absurd hreplies (Nat.not_lt_zero _)
  | succ replies ih =>
    rw [numberAmong] at h
    rcases bind_eq_error.1 h with hreply | ⟨r, b₁, hreply, h⟩
    · exact awaitReply_error hreply (by simp [hs]) hb
    · obtain ⟨s₁, polls, hworks, hcall, hdelays, hless⟩ := awaitReply_ok hreply (by simp [hs]) hb
      rw [hs] at hcall
      cases r with
      | value w => cases h
      | proceed =>
        rw [closed_proceed hcall] at hworks
        have hfewer : b₁.operator.remaining < replies := by omega
        obtain ⟨s₂, polls', hworks', hdelays', hstuck⟩ :=
          ih h hfewer (s := s₁.after polls s₁.pauses) hcall hdelays
        exact ⟨s₂, polls', hworks.trans hworks', hdelays', hstuck⟩

end Action

/-! ## Calls of a run -/

/-- What a run does for a call. -/
def Call.act : Call → Action Answer
  | .look => do
    match ← Action.pollOperator with
    | some r => return .reply r
    | none => return .nothing
  | .reply => do return .reply (← Action.awaitReply)
  | .acknowledgement => do
    Action.awaitAck
    return .acknowledged
  | .number => do return .number (← Action.awaitNumber)

/-- The events at a desk where one call is made and served, and nothing else happens. -/
def Call.events (call : Call) (k : Nat) : List Event := .call call :: List.replicate k .work

theorem Call.run_events {b : Bench} {call : Call} {d : Desk}
    (h : (b.desk.serving { call } .between).Works d) : ∃ k, b.desk.run (call.events k) = d := by
  obtain ⟨k, hk⟩ := h
  exact ⟨k, hk⟩

/-- A call that returns is a run of the desk from its request to its answer. -/
theorem Call.act_ok {call : Call} {b b' : Bench} {a : Answer} (h : call.act b = .ok a b') :
    ∃ k s, b.desk.run (call.events k) = { channel := b'.operator, served := [(s, a)] } ∧
      b'.delays.toList = b.delays.toList ++ s.pauses := by
  have hstart : b.delays.toList = b.delays.toList ++ ({ call } : Service).pauses := by simp
  cases call with
  | look =>
    obtain ⟨reply, b₁, polls, hlook, hdelays, _, _, hworks⟩ :=
      Action.pollOperator_works b { call := .look }
    rw [act, Action.bind_of_ok hlook] at h
    cases reply with
    | some r =>
      cases h
      obtain ⟨k, hk⟩ := run_events hworks
      exact ⟨k, _, hk, by rw [hdelays]; exact hstart⟩
    | none =>
      cases h
      obtain ⟨k, hk⟩ := run_events (hworks.trans (Desk.works_worked _))
      exact ⟨k, _, hk, by rw [hdelays]; exact hstart⟩
  | reply =>
    obtain ⟨r, b₁, hreply, h⟩ := Action.bind_eq_ok.1 h
    cases h
    obtain ⟨s, polls, hworks, hcall, hdelays, _⟩ := Action.awaitReply_ok hreply (by simp) hstart
    obtain ⟨k, hk⟩ := run_events hworks
    rw [Desk.closed, hcall] at hk
    exact ⟨k, _, hk, hdelays⟩
  | acknowledgement =>
    obtain ⟨_, b₂, hack, h⟩ := Action.bind_eq_ok.1 h
    cases h
    obtain ⟨r, b₁, hreply, h⟩ := Action.bind_eq_ok.1 hack
    obtain ⟨s, polls, hworks, hcall, hdelays, _⟩ := Action.awaitReply_ok hreply (by simp) hstart
    obtain ⟨k, hk⟩ := run_events hworks
    rw [Desk.closed, hcall] at hk
    -- a number that acknowledges is noted, which the operator does not see
    cases r <;> cases h <;> exact ⟨k, _, hk, hdelays⟩
  | number =>
    obtain ⟨v, b₁, hnumber, h⟩ := Action.bind_eq_ok.1 h
    cases h
    rw [Action.awaitNumber, Action.get_bind_apply] at hnumber
    obtain ⟨s, polls, hworks, hcall, hdelays⟩ := Action.numberAmong_ok hnumber rfl hstart
    obtain ⟨k, hk⟩ := run_events hworks
    rw [Desk.closed, hcall] at hk
    exact ⟨k, _, hk, hdelays⟩

/-- A call that does not return is a run of the desk that is still inside it. -/
theorem Call.act_error {call : Call} {b b' : Bench} {e : Stop} (h : call.act b = .error e b') :
    ∃ k s polls, b.desk.run (call.events k) = b'.desk.serving s (.polling polls []) ∧
      b'.delays.toList = b.delays.toList ++ s.pauses ∧ Action.Stuck e b' := by
  have hstart : b.delays.toList = b.delays.toList ++ ({ call } : Service).pauses := by simp
  have hstuck : ∃ s' polls, (b.desk.serving { call } .between).Works
      (b'.desk.serving s' (.polling polls [])) ∧
        b'.delays.toList = b.delays.toList ++ s'.pauses ∧ Action.Stuck e b' := by
    cases call with
    | look =>
      obtain ⟨reply, b₁, _, hlook, _⟩ := Action.pollOperator_works b { call := .look }
      rw [act, Action.bind_of_ok hlook] at h
      cases reply <;> cases h
    | reply =>
      rcases Action.bind_eq_error.1 h with hreply | ⟨_, _, _, h⟩
      · exact Action.awaitReply_error hreply (by simp) hstart
      · cases h
    | acknowledgement =>
      rcases Action.bind_eq_error.1 h with hack | ⟨_, _, _, h⟩
      · rcases Action.bind_eq_error.1 hack with hreply | ⟨r, _, _, h⟩
        · exact Action.awaitReply_error hreply (by simp) hstart
        · cases r <;> cases h
      · cases h
    | number =>
      rcases Action.bind_eq_error.1 h with hnumber | ⟨_, _, _, h⟩
      · rw [Action.awaitNumber, Action.get_bind_apply] at hnumber
        exact Action.numberAmong_error hnumber (Nat.lt_succ_self _) rfl hstart
      · cases h
  obtain ⟨s', polls, hworks, hdelays, hwhy⟩ := hstuck
  obtain ⟨k, hk⟩ := run_events hworks
  exact ⟨k, s', polls, hk, hdelays, hwhy⟩

namespace Desk

/-- Whatever is called, sent and dropped, and whenever: the replies of each place are taken in order
and are accounted for, a poll takes the next of them exactly if one is due, a line hands over what
waits in it though its sender is gone, and each call takes what it asks for and pauses where it must.
The waits of a run are such calls, whether they get their answer or have to stop in the middle of an
empty round. -/
theorem replies_kept :
    (∀ (c : Channel) (events : List Event),
      let d := ({ channel := c } : Desk).run events
      d.Ledger c ∧ d.Sound c.sources.length c.pollMillis ∧
        (∀ s polls i left source, d.underway = some (s, .polling polls (i :: left)) →
          d.channel.sources[i]? = some source →
          (source.due → ∃ r, (d.channel.supply i).head? = some r ∧
            (d.step .work).taken i = d.taken i ++ [r]) ∧
          (¬ source.due → (d.step .work).taken i = d.taken i)) ∧
        ∀ s polls i left waiting state, d.underway = some (s, .polling polls (i :: left)) →
          d.channel.sources[i]? = some (.line waiting state) →
          (d.step .work).taken i = d.taken i ++ (d.channel.supply i).head?.toList) ∧
    (∀ (call : Call) (b b' : Bench) (a : Answer), call.act b = .ok a b' → ∃ k s,
      b.desk.run (call.events k) = { channel := b'.operator, served := [(s, a)] } ∧
        b'.delays.toList = b.delays.toList ++ s.pauses) ∧
    (∀ (call : Call) (b b' : Bench) (e : Stop), call.act b = .error e b' → ∃ k s polls,
      b.desk.run (call.events k) = b'.desk.serving s (.polling polls []) ∧
        b'.delays.toList = b.delays.toList ++ s.pauses ∧ Action.Stuck e b') := by
  refine ⟨fun c events => ⟨run_ledger c events, run_sound c events, ?_, ?_⟩, ?_, ?_⟩
  · intro s polls i left source hunderway hsource
    have htaken := worked_taken hsource hunderway
    rw [Channel.supply_of_some hsource]
    refine ⟨fun hdue => ?_, fun hdue => ?_⟩
    · obtain ⟨r, hfront, hreply⟩ := Source.poll_of_due hdue
      rw [hreply, Option.toList_some] at htaken
      exact ⟨r, hfront, htaken⟩
    · rw [Source.poll_of_not_due hdue, Option.toList_none, List.append_nil] at htaken
      exact htaken
  · intro s polls i left waiting state hunderway hline
    rw [Channel.supply_of_some hline, ← Source.poll_line]
    exact worked_taken hline hunderway
  · intro call b b' a h
    exact Call.act_ok h
  · intro call b b' e h
    exact Call.act_error h

/-- A number that was sent is heard though its sender is gone. -/
theorem number_heard_after_drop :
    let d : Desk := { channel := { sources := [.line [] .open], pollMillis := 10 } }
    (d.run ([.send 0 (.value 0), .drop 0] ++ Call.number.events 2)).taken 0 = [.value 0] := by
  intro d
  generalize (0 : Single) = v
  have hledger := (replies_kept.1 d.channel ([.send 0 (.value v), .drop 0] ++ Call.number.events 2)).1 0
  have hsupply : (d.run ([.send 0 (.value v), .drop 0] ++
      Call.number.events 2)).channel.supply 0 = [] := rfl
  have hsent : (d.run ([.send 0 (.value v), .drop 0] ++ Call.number.events 2)).sentTo 0 =
      [.value v] := rfl
  rw [hsupply, hsent, List.append_nil] at hledger
  exact hledger

end Desk

end LoadBench
