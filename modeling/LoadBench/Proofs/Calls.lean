import LoadBench.Proofs.Desk

/-!
# What calls come to

A look at the operator takes at most one reply and gives it, and it gives none only after every
source was polled in vain. A wait takes one reply, or the replies up to the first number, and
pauses once for each empty round. Whatever is sent meanwhile makes no difference to that.
-/

namespace LoadBench

/-- The polls of a round of so many sources: no source was polled twice, the first reply ended the
round, and without a reply every source was polled. -/
structure Complete (count : Nat) (polls : List Poll) : Prop where
  once : (polls.map Poll.place).Nodup
  within : ∀ p ∈ polls, p.place < count
  first : ∀ p ∈ polls.dropLast, p.reply = none
  whole : (∀ p ∈ polls, p.reply = none) → (polls.map Poll.place).Perm (List.range count)

/-- A round that goes on: each place was polled in vain or is left. -/
def Stage.Of (count : Nat) : Stage → Prop
  | .between => True
  | .polling polls left =>
    (polls.map Poll.place ++ left).Perm (List.range count) ∧ ∀ p ∈ polls, p.reply = none

namespace Service

def replies (s : Service) : List Reply := s.rounds.flatten.filterMap Poll.reply

def empties (s : Service) : Nat := s.rounds.countP fun polls => polls.all (·.reply.isNone)

end Service

/-- An answer is what the replies that were taken for a call come to. -/
def Answer.Of (replies : List Reply) : Call → Answer → Prop
  | .look, .nothing => replies = []
  | .look, .reply r => replies = [r]
  | .reply, .reply r => replies = [r]
  | .acknowledgement, .acknowledged => ∃ r, replies = [r]
  | .number, .number v => ∃ k, replies = List.replicate k .proceed ++ [.value v]
  | _, _ => False

/-- Replies that a call may have taken without an answer. -/
def Call.Passes (replies : List Reply) : Call → Prop
  | .number => ∃ k, replies = List.replicate k .proceed
  | _ => replies = []

namespace Service

/-- The rounds of a call, with a pause after each that was empty; a look is one round without. -/
structure Paced (count millis : Nat) (s : Service) : Prop where
  rounds : ∀ polls ∈ s.rounds, Complete count polls
  pauses : s.pauses = if s.call = .look then [] else List.replicate s.empties millis

/-- What holds as long as a call is not answered. -/
structure Open (count millis : Nat) (s : Service) : Prop extends s.Paced count millis where
  passes : s.call.Passes s.replies
  look : s.call = .look → s.rounds = []

/-- What holds of a call that was answered. -/
structure Kept (count millis : Nat) (s : Service) (a : Answer) : Prop
    extends s.Paced count millis where
  answer : a.Of s.replies s.call
  look : s.call = .look → s.rounds.length = 1

end Service

theorem Complete.of_empty {count : Nat} {polls : List Poll}
    (h : (Stage.polling polls []).Of count) : Complete count polls := by
  obtain ⟨hperm, hnone⟩ := h
  rw [List.append_nil] at hperm
  refine ⟨hperm.nodup_iff.2 List.nodup_range, fun p hp => ?_, fun p hp => ?_, fun _ => hperm⟩
  · exact List.mem_range.1 (hperm.mem_iff.1 (List.mem_map_of_mem hp))
  · exact hnone p (List.mem_of_mem_dropLast hp)

/-- A round is complete with the first reply, though not every source was polled. -/
theorem Complete.of_reply {count i : Nat} {polls : List Poll} {left : List Nat}
    (h : (Stage.polling polls (i :: left)).Of count) (r : Reply) :
    Complete count (polls ++ [⟨i, some r⟩]) := by
  obtain ⟨hperm, hnone⟩ := h
  have hsub : List.Sublist ((polls ++ [(⟨i, some r⟩ : Poll)]).map Poll.place)
      (polls.map Poll.place ++ i :: left) := by
    rw [List.map_append]
    exact List.Sublist.append_left (by simp) _
  refine ⟨hsub.nodup (hperm.nodup_iff.2 List.nodup_range), fun p hp => ?_, ?_, fun hall => ?_⟩
  · exact List.mem_range.1 (hperm.mem_iff.1 (hsub.subset (List.mem_map_of_mem hp)))
  · rw [List.dropLast_concat]
    exact hnone
  · exact absurd (hall ⟨i, some r⟩ (by simp)) nofun

namespace Service

variable {count millis : Nat} {s : Service} {polls : List Poll} {reply : Option Reply}

theorem replies_after (h : polls.filterMap Poll.reply = reply.toList) (pauses : List Nat) :
    (s.after polls pauses).replies = s.replies ++ reply.toList := by
  simp [replies, after, h]

theorem empties_after (h : polls.filterMap Poll.reply = reply.toList) (pauses : List Nat) :
    (s.after polls pauses).empties = s.empties + if reply.isNone then 1 else 0 := by
  have hempty : polls.all (·.reply.isNone) = reply.isNone := by
    rw [Bool.eq_iff_iff, List.all_eq_true]
    simp only [Option.isNone_iff_eq_none, ← List.filterMap_eq_nil_iff, h, Option.toList_eq_nil_iff]
  simp [empties, after, List.countP_singleton, hempty]

/-- The end of a round keeps the pace if a wait pauses exactly where the round was empty. -/
theorem Paced.after (hs : s.Paced count millis) (hpolls : Complete count polls)
    (h : polls.filterMap Poll.reply = reply.toList) {pauses : List Nat}
    (hpauses : pauses =
      if s.call ≠ .look ∧ reply.isNone then s.pauses ++ [millis] else s.pauses) :
    (s.after polls pauses).Paced count millis where
  rounds := by
    intro p hp
    rcases List.mem_append.1 hp with hp | hp
    · exact hs.rounds p hp
    · rw [List.mem_singleton.1 hp]
      exact hpolls
  pauses := by
    rw [empties_after h]
    change pauses = if s.call = .look then [] else _
    rw [hpauses, hs.pauses]
    by_cases hlook : s.call = .look
    · simp [hlook]
    · cases hr : reply.isNone <;> simp [hlook, List.replicate_succ']

/-- A round that answers a call settles it. -/
theorem Open.answered (hs : s.Open count millis) (hpolls : Complete count polls)
    (h : polls.filterMap Poll.reply = reply.toList) {a : Answer} (ha : s.call.answer reply = some a) :
    (s.after polls s.pauses).Kept count millis a where
  toPaced := by
    refine hs.toPaced.after hpolls h ?_
    rw [if_neg]
    rintro ⟨hlook, hnone⟩
    rw [Option.isNone_iff_eq_none.1 hnone] at ha
    cases hc : s.call with
    | look => exact hlook hc
    | reply | acknowledgement | number =>
      rw [hc] at ha
      cases ha
  answer := by
    rw [replies_after h]
    have hpasses := hs.passes
    change a.Of _ s.call
    cases hc : s.call with
    | number =>
      rw [hc] at hpasses ha
      obtain ⟨k, hk⟩ := hpasses
      rcases reply with _ | _ | v <;> cases ha
      exact ⟨k, by rw [hk]; rfl⟩
    | look | reply | acknowledgement =>
      rw [hc] at hpasses ha
      rw [show s.replies = [] from hpasses]
      cases reply <;> cases ha <;> first | rfl | exact ⟨_, rfl⟩
  look := by
    intro hlook
    change (s.rounds ++ [polls]).length = 1
    rw [hs.look hlook]
    rfl

/-- A round that does not answer a call leaves it open. -/
theorem Open.unanswered (hs : s.Open count millis) (hpolls : Complete count polls)
    (h : polls.filterMap Poll.reply = reply.toList) (ha : s.call.answer reply = none) :
    (s.after polls (if reply.isNone then s.pauses ++ [millis] else s.pauses)).Open count millis := by
  have hlook : s.call ≠ .look := by
    intro hlook
    rw [hlook] at ha
    cases reply <;> cases ha
  refine ⟨hs.toPaced.after hpolls h (by simp [hlook]), ?_, fun hl => absurd hl hlook⟩
  rw [replies_after h]
  have hpasses := hs.passes
  change s.call.Passes _
  cases hc : s.call with
  | look => exact absurd hc hlook
  | reply | acknowledgement =>
    rw [hc] at hpasses ha
    cases reply <;> cases ha
    rw [Option.toList_none, List.append_nil]
    exact hpasses
  | number =>
    rw [hc] at hpasses ha
    obtain ⟨k, hk⟩ := hpasses
    rcases reply with _ | _ | v <;> cases ha
    · exact ⟨k, by rw [hk, Option.toList_none, List.append_nil]⟩
    · exact ⟨k + 1, by rw [hk, List.replicate_succ']; rfl⟩

end Service

namespace Desk

variable {count millis : Nat} {d : Desk} {s : Service} {polls : List Poll} {i : Nat}
  {left : List Nat}

/-- The desk keeps what its calls ask for. -/
structure Sound (count millis : Nat) (d : Desk) : Prop where
  sources : d.channel.sources.length = count
  pollMillis : d.channel.pollMillis = millis
  served : ∀ s a, (s, a) ∈ d.served → s.Kept count millis a
  underway : ∀ s stage, d.underway = some (s, stage) → s.Open count millis ∧ stage.Of count

theorem Sound.serving (hd : d.Sound count millis) {stage : Stage} (hs : s.Open count millis)
    (hstage : stage.Of count) : (d.serving s stage).Sound count millis := by
  refine ⟨hd.sources, hd.pollMillis, hd.served, fun s' stage' h => ?_⟩
  cases h
  exact ⟨hs, hstage⟩

theorem Sound.of_same (hd : d.Sound count millis) {d' : Desk}
    (hsources : d'.channel.sources.length = d.channel.sources.length)
    (hmillis : d'.channel.pollMillis = d.channel.pollMillis) (hserved : d'.served = d.served)
    (hunderway : d'.underway = d.underway) : d'.Sound count millis where
  sources := hsources.trans hd.sources
  pollMillis := hmillis.trans hd.pollMillis
  served := hserved ▸ hd.served
  underway := hunderway ▸ hd.underway

/-- The end of a round answers the call, or is followed by a pause; the desk is sound either way. -/
theorem Sound.closed (hd : d.Sound count millis) (hs : s.Open count millis)
    (hpolls : Complete count polls) {reply : Option Reply}
    (hreply : polls.filterMap Poll.reply = reply.toList) :
    (d.closed s polls reply).Sound count millis := by
  unfold Desk.closed
  split
  · next a ha =>
    refine ⟨hd.sources, hd.pollMillis, fun s' a' h => ?_, nofun⟩
    rcases List.mem_append.1 h with h | h
    · exact hd.served s' a' h
    · cases List.mem_singleton.1 h
      exact hs.answered hpolls hreply ha
  · next ha =>
    rw [hd.pollMillis]
    exact hd.serving (hs.unanswered hpolls hreply ha) trivial

/-- The next poll of a round goes to a place that was not polled in it. -/
theorem Sound.polled (hd : d.Sound count millis) (hs : s.Open count millis)
    (hstage : (Stage.polling polls (i :: left)).Of count) :
    (d.polled s polls i left).Sound count millis := by
  obtain ⟨hperm, hnone⟩ := hstage
  unfold Desk.polled
  split
  · next hout =>
    -- every place of a round has a source
    have hlt : i < count := List.mem_range.1 (hperm.mem_iff.1 (by simp))
    rw [List.getElem?_eq_none_iff, hd.sources] at hout
    omega
  · next source hsource =>
    have hset : ({ d with channel.sources := d.channel.sources.set i source.poll.source } :
        Desk).Sound count millis := hd.of_same (List.length_set ..) rfl rfl rfl
    dsimp only
    split
    · next r hr =>
      refine hset.closed hs ?_ ?_
      · rw [hr]
        exact .of_reply ⟨hperm, hnone⟩ r
      · have hfront : polls.filterMap Poll.reply = [] := List.filterMap_eq_nil_iff.2 hnone
        simp [hfront, hr]
    · next hr =>
      refine hset.serving hs ⟨?_, fun p hp => ?_⟩
      · simpa using hperm
      · rcases List.mem_append.1 hp with hp | hp
        · exact hnone p hp
        · rw [List.mem_singleton.1 hp]
          exact hr

theorem Sound.worked (hd : d.Sound count millis) : d.worked.Sound count millis := by
  unfold Desk.worked
  split
  · exact hd
  · next s h =>
    obtain ⟨hs, -⟩ := hd.underway _ _ h
    have hbegun : ({ d with channel := d.channel.begun } : Desk).Sound count millis :=
      hd.of_same (by rw [Channel.begun_sources]) (Channel.begun_pollMillis _) rfl rfl
    refine hbegun.serving hs ⟨?_, nofun⟩
    rw [← hd.sources]
    exact d.channel.places_perm
  · next s polls h =>
    obtain ⟨hs, hstage⟩ := hd.underway _ _ h
    exact hd.closed hs (.of_empty hstage) (List.filterMap_eq_nil_iff.2 hstage.2)
  · next s polls i left h =>
    obtain ⟨hs, hstage⟩ := hd.underway _ _ h
    exact hd.polled hs hstage

/-- The desk stays sound whatever the event. -/
theorem Sound.step (hd : d.Sound count millis) (e : Event) : (d.step e).Sound count millis := by
  cases e with
  | call call =>
    rw [Desk.step]
    split
    · refine hd.serving ⟨⟨fun _ h => absurd h List.not_mem_nil, ?_⟩, ?_, fun _ => rfl⟩ trivial
      · cases call <;> rfl
      · cases call
        case number => exact ⟨0, rfl⟩
        all_goals rfl
    · exact hd
  | work => exact hd.worked
  | send j r => exact hd.of_same (List.length_modify ..) rfl rfl rfl
  | drop j => exact hd.of_same (List.length_modify ..) rfl rfl rfl

theorem run_sound (c : Channel) (events : List Event) :
    (({ channel := c } : Desk).run events).Sound c.sources.length c.pollMillis := by
  have hstart : ({ channel := c } : Desk).Sound c.sources.length c.pollMillis :=
    ⟨rfl, rfl, nofun, nofun⟩
  exact List.foldlRecOn events Desk.step hstart fun _ hd e _ => hd.step e

/-- When it is the turn of a source, what its poll gives is taken from there. -/
theorem worked_taken {source : Source} (hsource : d.channel.sources[i]? = some source)
    (h : d.underway = some (s, .polling polls (i :: left))) :
    d.worked.taken i = d.taken i ++ source.poll.reply.toList := by
  have hd : d.taken i = (d.serving s (.polling polls left)).taken i := by
    rw [taken, polls_of_underway h]
    rfl
  rw [worked, h, hd]
  simpa using polled_taken hsource i

end Desk

end LoadBench
