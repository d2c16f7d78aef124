import LoadBench.Proofs.Waits
import Mathlib.Algebra.Order.Ring.Nat

/-!
# Waits that come to their end

While some source has a reply to give, a round that brings none uses up something else of it: an
entry without a reply, or a line that is no reply. So a wait has its reply after as many rounds as
the sources have entries at most, and it takes the reply from the front of one source and leaves the
others alone.
-/

namespace LoadBench

/-! ## What polls use up -/

namespace Source

def entries : Source → Nat
  | .scripted steps => steps.length
  | .polled entries => entries.length
  | .line waiting _ => waiting.length
  | .typed lines => lines.length

theorem entries_poll (s : Source) : s.poll.source.entries ≤ s.entries := by
  cases s with
  | scripted steps => cases steps <;> simp [poll, entries]
  | polled rest => cases rest <;> simp [poll, entries]
  | line waiting state => cases waiting <;> cases state <;> simp [poll, entries]
  | typed lines =>
    cases lines with
    | nil => simp [poll, entries]
    | cons l rest => cases h : Reply.ofLine l.text <;> simp [poll, forward, entries, h]

theorem entries_poll_lt {s : Source} (h : s.supply ≠ []) : s.poll.source.entries < s.entries := by
  cases s with
  | scripted steps => cases steps <;> simp_all [poll, entries, supply]
  | polled rest => cases rest <;> simp_all [poll, entries, supply]
  | line waiting state => cases waiting <;> cases state <;> simp_all [poll, entries, supply]
  | typed lines =>
    cases lines with
    | nil => simp [supply] at h
    | cons l rest => cases h : Reply.ofLine l.text <;> simp [poll, forward, entries, h]

end Source

/-- Setting one number changes the sum by it, said without subtraction. -/
theorem sum_set {l : List Nat} {i n : Nat} (h : l[i]? = some n) (m : Nat) :
    (l.set i m).sum + n = l.sum + m := by
  induction l generalizing i with
  | nil => cases h
  | cons k l ih =>
    cases i with
    | zero =>
      cases h
      simp only [List.set_cons_zero, List.sum_cons]
      omega
    | succ i =>
      have hrest := ih (i := i) h
      simp only [List.set_cons_succ, List.sum_cons]
      omega

namespace Channel

def supplies (c : Channel) : List (List Reply) := c.sources.map Source.supply

def supplied (c : Channel) : Nat := (c.supplies.map List.length).sum

def entriesOf (ss : List Source) : Nat := (ss.map Source.entries).sum

/-- How many entries the sources have. A wait makes no more pauses than that. -/
def patience (c : Channel) : Nat := entriesOf c.sources

/-- The second channel comes from the first by taking a reply from the front of one source. -/
def Gives (c c' : Channel) (r : Reply) : Prop :=
  ∃ i rest, c.supplies[i]? = some (r :: rest) ∧ c'.supplies = c.supplies.set i rest

variable {places : List Nat} {ss : List Source} {i : Nat} {s : Source}

theorem Gives.supplied {c c' : Channel} {r : Reply} (h : c.Gives c' r) :
    c'.supplied + 1 = c.supplied := by
  obtain ⟨i, rest, hfront, hsupplies⟩ := h
  have hlength : (c.supplies.map List.length)[i]? = some (rest.length + 1) := by
    simp [List.getElem?_map, hfront]
  have hsum := sum_set hlength rest.length
  rw [Channel.supplied, hsupplies, List.map_set, Channel.supplied]
  omega

/-- A poll without a reply leaves all supplies as they are. -/
theorem map_supply_set (hs : ss[i]? = some s) (hr : s.poll.reply = none) :
    (ss.set i s.poll.source).map Source.supply = ss.map Source.supply := by
  have hsame : s.poll.source.supply = s.supply := by simpa [hr] using s.supply_poll
  obtain ⟨hlt, rfl⟩ := List.getElem?_eq_some_iff.1 hs
  rw [List.map_set, hsame, ← List.getElem_map Source.supply, List.set_getElem_self]
  simpa using hlt

theorem entriesOf_set (hs : ss[i]? = some s) :
    entriesOf (ss.set i s.poll.source) + s.entries = entriesOf ss + s.poll.source.entries := by
  rw [entriesOf, List.map_set]
  exact sum_set (by simp [hs]) _

/-- A round without a reply takes nothing from any supply. -/
theorem supplies_pollAt_of_none (h : (pollAt places ss).reply = none) :
    (pollAt places ss).sources.map Source.supply = ss.map Source.supply := by
  induction places generalizing ss with
  | nil => rfl
  | cons i is ih =>
    rw [pollAt] at h ⊢
    cases hs : ss[i]? with
    | none =>
      rw [hs] at h
      exact ih h
    | some s =>
      rw [hs] at h
      dsimp only at h ⊢
      cases hr : s.poll.reply with
      | some r =>
        rw [hr] at h
        cases h
      | none =>
        rw [hr] at h
        exact (ih h).trans (map_supply_set hs hr)

/-- A round with a reply takes it from the front of one supply. -/
theorem supplies_pollAt_of_some {r : Reply} (h : (pollAt places ss).reply = some r) :
    ∃ i rest, (ss.map Source.supply)[i]? = some (r :: rest) ∧
      (pollAt places ss).sources.map Source.supply = (ss.map Source.supply).set i rest := by
  induction places generalizing ss with
  | nil => cases h
  | cons i is ih =>
    rw [pollAt] at h ⊢
    cases hs : ss[i]? with
    | none =>
      rw [hs] at h
      exact ih h
    | some s =>
      rw [hs] at h
      dsimp only at h ⊢
      cases hr : s.poll.reply with
      | some r' =>
        rw [hr] at h
        cases h
        have hfront := s.supply_poll
        rw [hr] at hfront
        exact ⟨i, s.poll.source.supply, by simp [hs, ← hfront], List.map_set⟩
      | none =>
        rw [hr] at h
        rw [← map_supply_set hs hr]
        exact ih h

theorem entriesOf_pollAt (places : List Nat) (ss : List Source) :
    entriesOf (pollAt places ss).sources ≤ entriesOf ss := by
  induction places generalizing ss with
  | nil => exact Nat.le_refl _
  | cons i is ih =>
    rw [pollAt]
    cases hs : ss[i]? with
    | none => exact ih ss
    | some s =>
      have hset := entriesOf_set hs
      have hpoll := s.entries_poll
      dsimp only
      cases s.poll.reply with
      | some r =>
        dsimp only
        omega
      | none =>
        have hlater := ih (ss.set i s.poll.source)
        dsimp only
        omega

/-- A round that polls a source with a reply and brings none uses up an entry. -/
theorem entriesOf_pollAt_lt (h : (pollAt places ss).reply = none) (hi : i ∈ places)
    (hs : ss[i]? = some s) (hsupply : s.supply ≠ []) :
    entriesOf (pollAt places ss).sources < entriesOf ss := by
  induction places generalizing ss with
  | nil => cases hi
  | cons j is ih =>
    rw [pollAt] at h ⊢
    cases ht : ss[j]? with
    | none =>
      rw [ht] at h
      have hj : i ≠ j := by
        rintro rfl
        cases hs.symm.trans ht
      exact ih h (List.mem_of_ne_of_mem hj hi) hs
    | some t =>
      rw [ht] at h
      have hset := entriesOf_set ht
      have hpoll := t.entries_poll
      dsimp only at h ⊢
      cases hr : t.poll.reply with
      | some r =>
        rw [hr] at h
        cases h
      | none =>
        rw [hr] at h
        dsimp only at h ⊢
        by_cases hj : i = j
        · subst hj
          obtain rfl : s = t := Option.some.inj (hs.symm.trans ht)
          have hless := Source.entries_poll_lt hsupply
          have hlater := entriesOf_pollAt is (ss.set i s.poll.source)
          omega
        · have hstill : (ss.set j t.poll.source)[i]? = some s := by
            rw [List.getElem?_set_ne (Ne.symm hj), hs]
          have hlater := ih h (List.mem_of_ne_of_mem hj hi) hstill
          omega

/-! ## Rounds -/

theorem supplies_round_of_none {c : Channel} (h : c.round.1.reply = none) :
    c.round.2.supplies = c.supplies := by
  rw [round_eq] at h ⊢
  exact supplies_pollAt_of_none h

theorem gives_round {c : Channel} {r : Reply} (h : c.round.1.reply = some r) :
    c.Gives c.round.2 r := by
  rw [round_eq] at h ⊢
  exact supplies_pollAt_of_some h

theorem round_pollMillis (c : Channel) : c.round.2.pollMillis = c.pollMillis := by
  rw [round_eq]
  exact c.begun_pollMillis

theorem patience_round (c : Channel) : c.round.2.patience ≤ c.patience := by
  rw [round_eq]
  exact entriesOf_pollAt _ _

/-- Some source has a reply. -/
theorem exists_supply_of_supplied {c : Channel} (h : 0 < c.supplied) :
    ∃ (i : Nat) (s : Source), c.sources[i]? = some s ∧ s.supply ≠ [] := by
  obtain ⟨_, hlength, hpos⟩ := List.sum_pos_iff_exists_pos_nat.1 h
  obtain ⟨_, hsupply, rfl⟩ := List.mem_map.1 hlength
  obtain ⟨s, hmem, rfl⟩ := List.mem_map.1 hsupply
  obtain ⟨i, hs⟩ := List.getElem?_of_mem hmem
  exact ⟨i, s, hs, List.length_pos_iff.1 hpos⟩

theorem patience_round_lt {c : Channel} (hsupplied : 0 < c.supplied)
    (h : c.round.1.reply = none) : c.round.2.patience < c.patience := by
  obtain ⟨i, s, hs, hsupply⟩ := exists_supply_of_supplied hsupplied
  have hlt := (List.getElem?_eq_some_iff.1 hs).1
  have hplace : i ∈ c.places := c.places_perm.mem_iff.2 (List.mem_range.2 hlt)
  rw [round_eq] at h ⊢
  exact entriesOf_pollAt_lt h hplace hs hsupply

theorem not_needsTyping_of_supplied {c : Channel} (h : 0 < c.supplied) : c.needsTyping = false := by
  obtain ⟨i, s, hs, hsupply⟩ := exists_supply_of_supplied h
  have htyping : s.needsTyping = false := by
    cases s with
    | typed lines => cases lines <;> simp_all [Source.supply, Source.needsTyping]
    | _ => rfl
  have hall : c.sources.all Source.needsTyping = false :=
    List.all_eq_false.2 ⟨s, List.mem_of_getElem? hs, by simp [htyping]⟩
  rw [needsTyping, hall, Bool.and_false]

end Channel

/-! ## Waits -/

/-- A wait that heard a reply: it is taken from one source, and each pause is for an entry that was
none. -/
structure Bench.Heard (b b' : Bench) (r : Reply) : Prop where
  reaches : b.Reaches Effect.Waiting b'
  gives : b.operator.Gives b'.operator r
  pauses : ∃ k, b'.delays.toList = b.delays.toList ++ List.replicate k b.operator.pollMillis ∧
    b'.delaysLeft + k = b.delaysLeft ∧ b'.operator.patience + k ≤ b.operator.patience

namespace Action

variable {b : Bench}

theorem delay_completes (millis : Nat) (h : 0 < b.delaysLeft) :
    ∃ b', delay millis b = .ok () b' := by
  cases hpause : delay millis b with
  | ok _ b' => exact ⟨b', rfl⟩
  | error e b' =>
    obtain ⟨_, hidled, hnone⟩ := delay_error hpause
    have := hidled.delaysLeft
    omega

/-- A wait comes to its end if there is a reply and the delays that are left outlast the entries. -/
theorem pollRounds_completes {rounds : Nat} (hsupplied : 0 < b.operator.supplied)
    (hrounds : b.operator.patience < rounds) (hdelays : b.operator.patience ≤ b.delaysLeft) :
    ∃ r b', pollRounds rounds b = .ok r b' ∧ b.Heard b' r := by
  induction rounds generalizing b with
  | zero => exact absurd hrounds (Nat.not_lt_zero _)
  | succ rounds ih =>
    obtain ⟨b₁, hlook, hoperator, hsame, hleft⟩ := pollOperator_ok b
    have hreaches {r : Reply} {b' : Bench} (h : pollRounds (rounds + 1) b = .ok r b') :
        b.Reaches Effect.Waiting b' :=
      ((pollRounds_mild _).mono fun _ => And.left).reaches_of_ok h
    cases hreply : b.operator.round.1.reply with
    | some r =>
      rw [hreply] at hlook
      have hrun : pollRounds (rounds + 1) b = .ok r b₁ := pollRounds_apply hlook rounds
      refine ⟨r, b₁, hrun, hreaches hrun, hoperator ▸ Channel.gives_round hreply, 0, ?_, hleft, ?_⟩
      · simp [hsame]
      · exact hoperator ▸ b.operator.patience_round
    | none =>
      rw [hreply] at hlook
      have hless := Channel.patience_round_lt hsupplied hreply
      have hsupplies := Channel.supplies_round_of_none hreply
      have hmillis := b.operator.round_pollMillis
      rw [← hoperator] at hless hsupplies hmillis
      have hsupplied₁ : 0 < b₁.operator.supplied := by rwa [Channel.supplied, hsupplies]
      obtain ⟨b₂, hpause⟩ := delay_completes (b := b₁) b₁.operator.pollMillis (by omega)
      obtain ⟨hoperator₂, hpushed, hleft₂⟩ := delay_ok hpause
      rw [← hoperator₂] at hless hsupplies hsupplied₁
      obtain ⟨r, b', hlater, hheard⟩ := ih hsupplied₁ (by omega) (by omega)
      have hrun : pollRounds (rounds + 1) b = .ok r b' := by
        rw [pollRounds_apply hlook, Channel.not_needsTyping_of_supplied (hoperator₂ ▸ hsupplied₁)]
        exact (bind_of_ok hpause _).trans hlater
      obtain ⟨k, hpauses, hspent, hpaid⟩ := hheard.pauses
      refine ⟨r, b', hrun, hreaches hrun, ?_, k + 1, ?_, by omega, by omega⟩
      · have hgives := hheard.gives
        rwa [Channel.Gives, hsupplies] at hgives
      · rw [hpauses, hpushed, hsame, hoperator₂, hmillis]
        simp [List.replicate_succ]

/-- With a reply somewhere and patience for it, waiting for an acknowledgement ends. -/
theorem awaitAck_completes (hsupplied : 0 < b.operator.supplied)
    (hdelays : b.operator.patience ≤ b.delaysLeft) :
    ∃ r b', awaitAck b = .ok () b' ∧ b.Heard b' r := by
  have hrounds : b.operator.patience < b.delaysLeft + 1 := by omega
  obtain ⟨r, b₁, hreply, hheard⟩ := pollRounds_completes hsupplied hrounds hdelays
  have hawait : awaitReply b = .ok r b₁ := hreply
  cases r with
  | proceed => exact ⟨_, b₁, bind_of_ok hawait _, hheard⟩
  | value v =>
    have hack : awaitAck b = .ok () (b₁.noted (.valueIgnored v)) := bind_of_ok hawait _
    exact ⟨_, _, hack, awaitAck_uses.reaches_of_ok hack, hheard.gives, hheard.pauses⟩

end Action

namespace Bench.Heard

variable {b b' : Bench} {r : Reply}

/-- A notice before a wait is part of it. -/
theorem of_noted {n : Notice} (h : (b.noted n).Heard b' r) : b.Heard b' r where
  reaches := (Reaches.refl.step (e := .note n) trivial).trans h.reaches
  gives := h.gives
  pauses := h.pauses

end Bench.Heard

end LoadBench
