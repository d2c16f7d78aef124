import LoadBench.Proofs.Hearing

/-!
# The order in which replies are heard

Several sources make one sequence of replies, for the rounds of polls settle which reply comes next.
A wait takes the first of them. So an acknowledgement takes one reply, whatever it is, a wait for a
number takes all up to the first number, and the question for a distance all up to the first positive
number. The replies after that are still there.
-/

namespace LoadBench

namespace Channel

/-! ## One sequence of replies -/

/-- A round with a reply leaves fewer entries than there were. -/
theorem entriesOf_pollAt_lt_of_some {places : List Nat} {ss : List Source} {r : Reply}
    (h : (pollAt places ss).reply = some r) :
    entriesOf (pollAt places ss).sources < entriesOf ss := by
  induction places generalizing ss with
  | nil => cases h
  | cons i is ih =>
    rw [pollAt] at h ⊢
    cases hs : ss[i]? with
    | none =>
      rw [hs] at h
      exact ih h
    | some s =>
      rw [hs] at h
      have hset := entriesOf_set hs
      dsimp only at h ⊢
      cases hr : s.poll.reply with
      | some r' =>
        have hsupply : s.supply ≠ [] := by
          rw [← s.supply_poll, hr, Option.toList_some]
          exact List.cons_ne_nil _ _
        have hless := Source.entries_poll_lt hsupply
        dsimp only
        omega
      | none =>
        rw [hr] at h
        have hpoll := s.entries_poll
        have hlater := ih h
        dsimp only
        omega

/-- The replies that come in so many rounds. -/
def repliesIn : (rounds : Nat) → Channel → List Reply
  | 0, _ => []
  | rounds + 1, c => c.round.1.reply.toList ++ repliesIn rounds c.round.2

def replies (c : Channel) : List Reply := repliesIn c.patience c

variable {c : Channel}

/-- A round uses up an entry as long as there is a reply to come. -/
theorem patience_round_lt_of_supplied (h : 0 < c.supplied) : c.round.2.patience < c.patience := by
  cases hreply : c.round.1.reply with
  | none => exact patience_round_lt h hreply
  | some r =>
    rw [round_eq] at hreply ⊢
    exact entriesOf_pollAt_lt_of_some hreply

theorem round_of_not_supplied (h : c.supplied = 0) :
    c.round.1.reply = none ∧ c.round.2.supplied = 0 := by
  cases hreply : c.round.1.reply with
  | none => exact ⟨rfl, by rw [supplied, supplies_round_of_none hreply, ← supplied, h]⟩
  | some r =>
    have hgiven := (gives_round hreply).supplied
    omega

theorem repliesIn_of_not_supplied (h : c.supplied = 0) (rounds : Nat) : repliesIn rounds c = [] := by
  induction rounds generalizing c with
  | zero => rfl
  | succ rounds ih =>
    obtain ⟨hreply, hlater⟩ := round_of_not_supplied h
    rw [repliesIn, hreply, ih hlater]
    rfl

/-- As many rounds as there are entries bring all replies. -/
theorem repliesIn_eq {m n : Nat} (hm : c.patience ≤ m) (hn : c.patience ≤ n) :
    repliesIn m c = repliesIn n c := by
  -- Both counts stay above the entries that are left, which fall with each round.
  induction m generalizing n c with
  | zero =>
    have hnone : c.supplied = 0 := by
      by_contra hsome
      have hless := patience_round_lt_of_supplied (Nat.pos_of_ne_zero hsome)
      omega
    rw [repliesIn_of_not_supplied hnone, repliesIn_of_not_supplied hnone]
  | succ m ih =>
    by_cases hnone : c.supplied = 0
    · rw [repliesIn_of_not_supplied hnone, repliesIn_of_not_supplied hnone]
    · have hless := patience_round_lt_of_supplied (Nat.pos_of_ne_zero hnone)
      obtain ⟨n, rfl⟩ := Nat.exists_eq_succ_of_ne_zero (n := n) (by omega)
      have hlater : repliesIn m c.round.2 = repliesIn n c.round.2 := ih (by omega) (by omega)
      rw [repliesIn, repliesIn, hlater]

/-- The reply of a round, if there is one, comes before those of later rounds. -/
theorem replies_eq (c : Channel) : c.replies = c.round.1.reply.toList ++ c.round.2.replies := by
  have hround : c.replies = repliesIn (c.patience + 1) c :=
    repliesIn_eq (Nat.le_refl _) (Nat.le_succ _)
  rw [hround, repliesIn, replies, repliesIn_eq c.patience_round (Nat.le_refl _)]

/-- All replies come that the sources can still give. -/
theorem length_replies (c : Channel) : c.replies.length = c.supplied := by
  generalize hn : c.patience = n
  induction n using Nat.strongRecOn generalizing c with
  | ind n ih =>
    by_cases hnone : c.supplied = 0
    · rw [replies, repliesIn_of_not_supplied hnone, hnone]
      rfl
    · have hless := patience_round_lt_of_supplied (Nat.pos_of_ne_zero hnone)
      have hlater := ih _ (hn ▸ hless) c.round.2 rfl
      rw [replies_eq, List.length_append, hlater]
      cases hreply : c.round.1.reply with
      | none => simp [supplied, supplies_round_of_none hreply]
      | some r =>
        have hgiven := (gives_round hreply).supplied
        simp only [Option.toList_some, List.length_singleton]
        omega

theorem supplied_of_replies {r : Reply} {later : List Reply} (h : c.replies = r :: later) :
    0 < c.supplied := by
  rw [← c.length_replies, h]
  exact Nat.zero_lt_succ _

/-- One source alone is heard in its own order. -/
theorem replies_of_single {s : Source} (h : c.sources = [s]) : c.replies = s.supply := by
  generalize hn : c.patience = n
  induction n using Nat.strongRecOn generalizing c s with
  | ind n ih =>
    by_cases hnone : c.supplied = 0
    · have hsupply : s.supply = [] := by simpa [supplied, supplies, h] using hnone
      rw [replies, repliesIn_of_not_supplied hnone, hsupply]
    · have hless := patience_round_lt_of_supplied (Nat.pos_of_ne_zero hnone)
      have hround : c.round.1.reply = s.poll.reply ∧ c.round.2.sources = [s.poll.source] := by
        have hplaces : c.places = [0] := by simp [places, order, h, Nat.mod_one]
        rw [round_eq, hplaces, h]
        cases hreply : s.poll.reply <;> simp [pollAt, hreply]
      rw [replies_eq, ih _ (hn ▸ hless) hround.2 rfl, hround.1, s.supply_poll]

/-- No more replies come than are left. -/
theorem length_replies_le (c : Channel) : c.replies.length ≤ c.remaining := by
  have hall : ∀ rounds (c : Channel), (repliesIn rounds c).length ≤ c.remaining := by
    intro rounds
    induction rounds with
    | zero => exact fun c => Nat.zero_le _
    | succ rounds ih =>
      intro c
      have hround := c.remaining_round
      have hlater := ih c.round.2
      rw [repliesIn, List.length_append]
      omega
  exact hall _ c

end Channel

/-! ## Waits take replies from the front -/

namespace Reply

/-- The reply is a positive number. -/
def IsDistance : Reply → Prop
  | .proceed => False
  | .value v => 0 < v

instance (r : Reply) : Decidable r.IsDistance :=
  match r with
  | .proceed => inferInstanceAs (Decidable False)
  | .value v => inferInstanceAs (Decidable (0 < v))

/-- Among some replies there is a first number, or there is none. -/
theorem exists_first_number (rs : List Reply) : (∀ r ∈ rs, r = .proceed) ∨
    ∃ front v rest, rs = front ++ .value v :: rest ∧ ∀ r ∈ front, r = .proceed := by
  induction rs with
  | nil => exact .inl nofun
  | cons r rs ih =>
    cases r with
    | value v => exact .inr ⟨[], v, rs, rfl, nofun⟩
    | proceed =>
      rcases ih with hall | ⟨front, v, rest, rfl, hfront⟩
      · exact .inl (List.forall_mem_cons.2 ⟨rfl, hall⟩)
      · exact .inr ⟨.proceed :: front, v, rest, rfl, List.forall_mem_cons.2 ⟨rfl, hfront⟩⟩

end Reply

/-- The operator gives these replies, and the delays that are left outlast all waits for them. -/
structure Bench.Answered (b : Bench) (rs : List Reply) : Prop where
  replies : b.operator.replies = rs
  lasts : b.operator.patience ≤ b.delaysLeft

theorem Bench.Answered.of_idled {b b' : Bench} {rs : List Reply} (h : b.Answered rs)
    (hidled : b.Idled b') : b'.Answered rs := by
  constructor
  · rw [hidled.operator, h.replies]
  · rw [hidled.operator, hidled.delaysLeft]
    exact h.lasts

theorem Bench.Answered.noted {b : Bench} {rs : List Reply} (h : b.Answered rs) (n : Notice) :
    (b.noted n).Answered rs := ⟨h.replies, h.lasts⟩

namespace Action

variable {b b' : Bench} {r : Reply} {v : Single} {skipped later : List Reply}

/-- The reply that ends a wait is the first of those that are still to come. -/
theorem pollRounds_replies {rounds : Nat} (h : pollRounds rounds b = .ok r b') :
    b.operator.replies = r :: b'.operator.replies := by
  induction rounds generalizing b with
  | zero => cases h
  | succ rounds ih =>
    obtain ⟨b₁, hlook, hoperator, _, _⟩ := pollOperator_ok b
    rw [Channel.replies_eq, ← hoperator]
    cases hreply : b.operator.round.1.reply with
    | some r' =>
      rw [hreply] at hlook
      rw [pollRounds_apply hlook] at h
      cases h
      rfl
    | none =>
      rw [hreply] at hlook
      rw [pollRounds_apply hlook] at h
      dsimp only at h
      split at h
      · cases h
      · obtain ⟨_, b₂, hpause, hlater⟩ := bind_eq_ok.1 h
        rw [← (delay_ok hpause).1]
        exact ih hlater

/-- A wait takes the next reply. -/
theorem awaitReply_answered (h : b.Answered (r :: later)) :
    ∃ b', awaitReply b = .ok r b' ∧ b'.Answered later := by
  have hsupplied := Channel.supplied_of_replies h.replies
  obtain ⟨r', b', hreply, hheard⟩ :=
    pollRounds_completes hsupplied (Nat.lt_succ_of_le h.lasts) h.lasts
  have hfront := pollRounds_replies hreply
  rw [h.replies] at hfront
  obtain ⟨rfl, rfl⟩ := List.cons.inj hfront
  obtain ⟨k, _, hspent, hpaid⟩ := hheard.pauses
  have hlasts := h.lasts
  exact ⟨b', hreply, rfl, by omega⟩

/-- A wait for an acknowledgement takes the next reply, whatever it is. -/
theorem awaitAck_answered (h : b.Answered (r :: later)) :
    ∃ b', awaitAck b = .ok () b' ∧ b'.Answered later := by
  obtain ⟨b', hreply, hlater⟩ := awaitReply_answered h
  cases r with
  | proceed => exact ⟨b', bind_of_ok hreply _, hlater⟩
  | value v => exact ⟨_, bind_of_ok hreply _, hlater.noted (.valueIgnored v)⟩

/-- Acknowledgements are passed over until there is a number. -/
theorem numberAmong_answered {n : Nat} (hskipped : ∀ r ∈ skipped, r = .proceed)
    (hn : skipped.length < n) (h : b.Answered (skipped ++ .value v :: later)) :
    ∃ b', numberAmong n b = .ok v b' ∧ b'.Answered later := by
  induction n generalizing skipped b with
  | zero => exact absurd hn (Nat.not_lt_zero _)
  | succ n ih =>
    cases skipped with
    | nil =>
      obtain ⟨b', hreply, hlater⟩ := awaitReply_answered h
      exact ⟨b', bind_of_ok hreply _, hlater⟩
    | cons r skipped =>
      obtain ⟨rfl, hproceed⟩ := List.forall_mem_cons.1 hskipped
      obtain ⟨b₁, hreply, hrest⟩ := awaitReply_answered h
      rw [List.length_cons] at hn
      obtain ⟨b', hnumber, hlater⟩ := ih hproceed (by omega) (hrest.noted .valueRequired)
      exact ⟨b', (bind_of_ok hreply _).trans hnumber, hlater⟩

/-- No more replies come before another than the sources have left. -/
theorem length_skipped_lt (h : b.Answered (skipped ++ r :: later)) :
    skipped.length < b.operator.remaining + 1 := by
  have hlength := b.operator.length_replies_le
  rw [h.replies, List.length_append] at hlength
  omega

/-- A wait for a number takes all replies up to the first number. -/
theorem awaitNumber_answered (hskipped : ∀ r ∈ skipped, r = .proceed)
    (h : b.Answered (skipped ++ .value v :: later)) :
    ∃ b', awaitNumber b = .ok v b' ∧ b'.Answered later := by
  rw [awaitNumber, get_bind_apply]
  exact numberAmong_answered hskipped (length_skipped_lt h) h

/-- Replies that are no distance are passed over until there is one; the scale is the quotient. -/
theorem distanceAmong_answered {commanded : Steps} {n : Nat} (hskipped : ∀ r ∈ skipped, ¬ r.IsDistance)
    (hv : 0 < v) (hn : skipped.length < n) (h : b.Answered (skipped ++ .value v :: later)) :
    ∃ b', distanceAmong commanded n b = .ok (.ofInt commanded.toInt.natAbs / v, v) b' ∧
      b'.Answered later := by
  induction n generalizing skipped b with
  | zero => exact absurd hn (Nat.not_lt_zero _)
  | succ n ih =>
    have hasked := h.noted .enterDistance
    rw [distanceAmong, note_bind_apply]
    -- The next number is the distance, or one of those that are passed over.
    rcases Reply.exists_first_number skipped with hproceed | ⟨front, w, rest, rfl, hproceed⟩
    · obtain ⟨b', hnumber, hlater⟩ := awaitNumber_answered hproceed hasked
      refine ⟨b', ?_, hlater⟩
      have hobserved : observedStepsPerUnit commanded v = .ok (.ofInt commanded.toInt.natAbs / v) :=
        if_pos hv
      rw [bind_of_ok hnumber, hobserved]
      rfl
    · rw [List.append_assoc, List.cons_append] at hasked
      obtain ⟨b₁, hnumber, hrest⟩ := awaitNumber_answered hproceed hasked
      have hw : ¬ 0 < w := hskipped (.value w) (by simp)
      have hrefused : observedStepsPerUnit commanded w = .error (.invalidObservedDistance w) :=
        if_neg hw
      rw [List.length_append, List.length_cons] at hn
      obtain ⟨b', hdistance, hlater⟩ := ih
        (fun r hr => hskipped r (List.mem_append_right _ (List.mem_cons_of_mem _ hr))) (by omega)
        (hrest.noted (.distanceRefused (.invalidObservedDistance w)))
      refine ⟨b', ?_, hlater⟩
      rw [bind_of_ok hnumber, hrefused]
      exact hdistance

/-- The question for a distance takes all replies up to the first positive number. -/
theorem askDistance_answered {commanded : Steps} (hskipped : ∀ r ∈ skipped, ¬ r.IsDistance)
    (hv : 0 < v) (h : b.Answered (skipped ++ .value v :: later)) :
    ∃ b', askDistance commanded b = .ok (.ofInt commanded.toInt.natAbs / v, v) b' ∧
      b'.Answered later := by
  rw [askDistance, get_bind_apply]
  exact distanceAmong_answered hskipped hv (length_skipped_lt h) h

end Action

end LoadBench
