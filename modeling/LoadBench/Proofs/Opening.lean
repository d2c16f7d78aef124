import LoadBench.Operator.StartGate
import LoadBench.Proofs.Desk

/-!
# The opening of the start gate

A check changes the trigger that is checked, so when the gate opens, and for which trigger, depends
on how often each of them was checked before. Every pass checks each trigger once, whichever of them
assert. The gate opens in the first pass in which a trigger asserts, for the least of those that do,
after one pause for each pass before. What others do to a trigger between two checks may be part of
the trigger.
-/

namespace LoadBench

namespace StartGate

variable {τ : Type} (check : τ → Bool × τ)

def checked (checks : Nat) (t : τ) : τ := (fun t => (check t).2)^[checks] t

def assertsAfter (checks : Nat) (t : τ) : Bool := (check (checked check checks t)).1

/-- No trigger asserts in the pass after so many passes. -/
def Quiet (ts : List τ) (passes : Nat) : Prop :=
  ∀ t ∈ ts, assertsAfter check passes t = false

/-- After so many passes in which no trigger asserts comes one in which some do, and this one is the
least of them. -/
structure OpensAfter (ts : List τ) (passes trigger : Nat) : Prop where
  quiet : ∀ earlier < passes, Quiet check ts earlier
  asserts : ∃ t, ts[trigger]? = some t ∧ assertsAfter check passes t = true
  least : ∀ other < trigger, ∀ t, ts[other]? = some t → assertsAfter check passes t = false

/-- A trigger that others change, each time before it is checked. -/
structure Shared (τ : Type) where
  trigger : τ
  /-- What they do before the check of this number, counted from zero. -/
  changes : Nat → τ → τ

/-- The check of a trigger after what others did to it. -/
def checkShared (t : Shared τ) : Bool × Shared τ :=
  let (asserted, trigger) := check (t.changes 0 t.trigger)
  (asserted, ⟨trigger, fun n => t.changes (n + 1)⟩)

/-! ## Passes -/

/-- A pass checks every trigger once, those after the first that asserts too. -/
theorem pass_eq (ts : List τ) :
    pass check ts = (ts.findIdx? fun t => (check t).1, ts.map fun t => (check t).2) := by
  induction ts with
  | nil => rfl
  | cons t ts ih =>
    rw [pass, ih, List.findIdx?_cons, List.map_cons]

theorem map_checked_pass (checks : Nat) (ts : List τ) :
    (pass check ts).2.map (checked check checks) = ts.map (checked check (checks + 1)) := by
  rw [pass_eq, List.map_map]
  rfl

/-- What a pass leaves asserts after some checks if the triggers do so after one more. -/
theorem quiet_pass_iff (ts : List τ) (passes : Nat) :
    Quiet check (pass check ts).2 passes ↔ Quiet check ts (passes + 1) := by
  rw [pass_eq]
  exact List.forall_mem_map

theorem pass_eq_none_iff (ts : List τ) : (pass check ts).1 = none ↔ Quiet check ts 0 := by
  rw [pass_eq]
  exact List.findIdx?_eq_none_iff

variable {check} {millis : Nat}

theorem opensAfter_zero_iff {ts : List τ} {trigger : Nat} :
    OpensAfter check ts 0 trigger ↔ (pass check ts).1 = some trigger := by
  rw [pass_eq, List.findIdx?_eq_some_iff_getElem]
  constructor
  · rintro ⟨-, ⟨t, ht, hasserts⟩, hleast⟩
    obtain ⟨hlt, rfl⟩ := List.getElem?_eq_some_iff.1 ht
    refine ⟨hlt, hasserts, fun other hother => ?_⟩
    exact Bool.eq_false_iff.1 (hleast other hother _ (List.getElem?_eq_getElem _))
  · rintro ⟨hlt, hasserts, hleast⟩
    refine ⟨nofun, ⟨_, List.getElem?_eq_getElem hlt, hasserts⟩, fun other hother t ht => ?_⟩
    obtain ⟨_, rfl⟩ := List.getElem?_eq_some_iff.1 ht
    exact Bool.eq_false_iff.2 (hleast other hother)

theorem opensAfter_succ_iff {ts : List τ} {passes trigger : Nat} :
    OpensAfter check ts (passes + 1) trigger ↔
      Quiet check ts 0 ∧ OpensAfter check (pass check ts).2 passes trigger := by
  have hplace (other : Nat) : (pass check ts).2[other]? = ts[other]?.map fun t => (check t).2 := by
    rw [pass_eq, List.getElem?_map]
  constructor
  · rintro ⟨hquiet, ⟨t, ht, hasserts⟩, hleast⟩
    refine ⟨hquiet 0 (Nat.succ_pos _), fun earlier hearlier => ?_, ⟨(check t).2, ?_, hasserts⟩, ?_⟩
    · exact (quiet_pass_iff check ts earlier).2 (hquiet _ (Nat.succ_lt_succ hearlier))
    · rw [hplace, ht]
      rfl
    · intro other hother t' ht'
      rw [hplace, Option.map_eq_some_iff] at ht'
      obtain ⟨t, ht, rfl⟩ := ht'
      exact hleast other hother t ht
  · rintro ⟨hfirst, hquiet, ⟨t', ht', hasserts⟩, hleast⟩
    rw [hplace, Option.map_eq_some_iff] at ht'
    obtain ⟨t, ht, rfl⟩ := ht'
    refine ⟨fun earlier hearlier => ?_, ⟨t, ht, hasserts⟩, fun other hother t ht => ?_⟩
    · cases earlier with
      | zero => exact hfirst
      | succ earlier =>
        exact (quiet_pass_iff check ts earlier).1 (hquiet _ (Nat.lt_of_succ_lt_succ hearlier))
    · exact hleast other hother _ (by rw [hplace, ht]; rfl)

/-- Where some pass is not quiet, the gate opens. -/
theorem exists_opensAfter {ts : List τ} {passes : Nat} (h : ¬ Quiet check ts passes) :
    ∃ passes trigger, OpensAfter check ts passes trigger := by
  induction passes generalizing ts with
  | zero =>
    obtain ⟨trigger, htrigger⟩ := Option.ne_none_iff_exists'.1 (mt (pass_eq_none_iff check ts).1 h)
    exact ⟨0, trigger, opensAfter_zero_iff.2 htrigger⟩
  | succ passes ih =>
    cases hpass : (pass check ts).1 with
    | some trigger => exact ⟨0, trigger, opensAfter_zero_iff.2 hpass⟩
    | none =>
      have hfirst := (pass_eq_none_iff check ts).1 hpass
      obtain ⟨passes', trigger, hopens⟩ := ih (mt (quiet_pass_iff check ts passes).1 h)
      exact ⟨passes' + 1, trigger, opensAfter_succ_iff.2 ⟨hfirst, hopens⟩⟩

/-! ## Waits -/

theorem pauses_replicate (fired : Option Nat) (ts : List τ) (pauses : Nat) :
    (Opening.mk fired ts (List.replicate pauses millis)).pauses = pauses := List.length_replicate

/-- A wait that opens in its first pass makes no pause. -/
theorem wait_of_some {ts : List τ} {trigger : Nat} (h : (pass check ts).1 = some trigger)
    (allowance : Nat) : wait check allowance ts millis = ⟨some trigger, (pass check ts).2, []⟩ := by
  cases allowance with
  | zero => rw [wait, ← h]
  | succ allowance =>
    unfold wait
    split
    · next i later hpass =>
      rw [hpass] at h
      cases h
      rw [hpass]
    · next later hpass =>
      rw [hpass] at h
      cases h

/-- A wait whose first pass is quiet pauses and goes on with the triggers as they are then. -/
theorem wait_of_none {ts : List τ} (h : (pass check ts).1 = none) (allowance : Nat) :
    wait check (allowance + 1) ts millis =
      { wait check allowance (pass check ts).2 millis with
        delays := millis :: (wait check allowance (pass check ts).2 millis).delays } := by
  rw [wait]
  split
  · next i later hpass =>
    rw [hpass] at h
    cases h
  · next later hpass => rw [hpass]

/-- What a wait comes to if the gate opens while it lasts. -/
theorem wait_of_opensAfter {ts : List τ} {passes trigger allowance : Nat}
    (h : OpensAfter check ts passes trigger) (hlasts : passes ≤ allowance) :
    wait check allowance ts millis =
      ⟨some trigger, ts.map (checked check (passes + 1)), List.replicate passes millis⟩ := by
  induction passes generalizing ts allowance with
  | zero =>
    rw [wait_of_some (opensAfter_zero_iff.1 h), pass_eq]
    rfl
  | succ passes ih =>
    obtain ⟨allowance, rfl⟩ := Nat.exists_eq_add_one_of_ne_zero (n := allowance) (by omega)
    obtain ⟨hfirst, hlater⟩ := opensAfter_succ_iff.1 h
    rw [wait_of_none ((pass_eq_none_iff check ts).2 hfirst), ih hlater (by omega),
      map_checked_pass]
    rfl

/-- What a wait comes to if all its passes are quiet. -/
theorem wait_of_quiet {ts : List τ} {allowance : Nat}
    (h : ∀ passes ≤ allowance, Quiet check ts passes) :
    wait check allowance ts millis =
      ⟨none, ts.map (checked check (allowance + 1)), List.replicate allowance millis⟩ := by
  induction allowance generalizing ts with
  | zero =>
    have hnone := (pass_eq_none_iff check ts).2 (h 0 (Nat.le_refl _))
    rw [wait, ← hnone, pass_eq]
    rfl
  | succ allowance ih =>
    have hlater : ∀ passes ≤ allowance, Quiet check (pass check ts).2 passes := fun passes hle =>
      (quiet_pass_iff check ts passes).2 (h _ (Nat.succ_le_succ hle))
    rw [wait_of_none ((pass_eq_none_iff check ts).2 (h 0 (Nat.zero_le _))), ih hlater,
      map_checked_pass]
    rfl

/-- The passes of a wait are quiet, or the gate opens in one of them. -/
theorem quiet_or_opensAfter (ts : List τ) (allowance : Nat) :
    (∀ passes ≤ allowance, Quiet check ts passes) ∨
      ∃ passes ≤ allowance, ∃ trigger, OpensAfter check ts passes trigger := by
  by_cases hquiet : ∀ passes ≤ allowance, Quiet check ts passes
  · exact .inl hquiet
  · push Not at hquiet
    obtain ⟨loud, hle, hloud⟩ := hquiet
    obtain ⟨passes, trigger, hopens⟩ := exists_opensAfter hloud
    refine .inr ⟨passes, ?_, trigger, hopens⟩
    by_contra hlate
    exact hloud (hopens.quiet loud (by omega))

/-- The gate opens for a trigger after some pauses if it does so while the wait lasts. -/
theorem wait_opens_iff (ts : List τ) (allowance passes trigger : Nat) :
    (wait check allowance ts millis).trigger = some trigger ∧
        (wait check allowance ts millis).pauses = passes ↔
      passes ≤ allowance ∧ OpensAfter check ts passes trigger := by
  constructor
  · rintro ⟨htrigger, rfl⟩
    rcases quiet_or_opensAfter ts allowance with hquiet | ⟨passes, hle, first, hopens⟩
    · rw [wait_of_quiet hquiet] at htrigger
      cases htrigger
    · rw [wait_of_opensAfter hopens hle] at htrigger ⊢
      cases htrigger
      rw [pauses_replicate]
      exact ⟨hle, hopens⟩
  · rintro ⟨hle, hopens⟩
    rw [wait_of_opensAfter hopens hle]
    exact ⟨rfl, pauses_replicate ..⟩

/-- A wait without an opening uses up its allowance. -/
theorem pauses_of_closed {ts : List τ} {allowance : Nat}
    (h : (wait check allowance ts millis).trigger = none) :
    (wait check allowance ts millis).pauses = allowance := by
  rcases quiet_or_opensAfter ts allowance with hquiet | ⟨passes, hle, trigger, hopens⟩
  · rw [wait_of_quiet hquiet, pauses_replicate]
  · rw [wait_of_opensAfter hopens hle] at h
    cases h

/-- All pauses of a wait are of the same length. -/
theorem wait_delays (ts : List τ) (allowance : Nat) :
    (wait check allowance ts millis).delays =
      List.replicate (wait check allowance ts millis).pauses millis := by
  rcases quiet_or_opensAfter ts allowance with hquiet | ⟨passes, hle, trigger, hopens⟩
  · rw [wait_of_quiet hquiet, pauses_replicate]
  · rw [wait_of_opensAfter hopens hle, pauses_replicate]

/-- Every pass of a wait, the last one too, checks every trigger once. -/
theorem wait_triggers (ts : List τ) (allowance : Nat) :
    (wait check allowance ts millis).triggers =
      ts.map (checked check ((wait check allowance ts millis).pauses + 1)) := by
  rcases quiet_or_opensAfter ts allowance with hquiet | ⟨passes, hle, trigger, hopens⟩
  · rw [wait_of_quiet hquiet, pauses_replicate]
  · rw [wait_of_opensAfter hopens hle, pauses_replicate]

/-- The passes before each pause are quiet. -/
theorem quiet_of_lt_pauses (ts : List τ) (allowance : Nat) {passes : Nat}
    (h : passes < (wait check allowance ts millis).pauses) : Quiet check ts passes := by
  rcases quiet_or_opensAfter ts allowance with hquiet | ⟨last, hle, trigger, hopens⟩
  · rw [wait_of_quiet hquiet, pauses_replicate] at h
    exact hquiet passes (Nat.le_of_lt h)
  · rw [wait_of_opensAfter hopens hle, pauses_replicate] at h
    exact hopens.quiet passes h

/-- The gate never opens exactly when every pass is quiet. -/
theorem wait_never_opens_iff (ts : List τ) :
    (∀ allowance, (wait check allowance ts millis).trigger = none) ↔
      ∀ passes, Quiet check ts passes := by
  constructor
  · intro h passes
    by_contra hloud
    obtain ⟨last, trigger, hopens⟩ := exists_opensAfter hloud
    have hnever := h last
    rw [wait_of_opensAfter hopens (Nat.le_refl _)] at hnever
    cases hnever
  · intro h allowance
    rw [wait_of_quiet fun passes _ => h passes]

end StartGate

/-! ## Replies as start signals -/

def Source.afterPolls (polls : Nat) (s : Source) : Source := (fun s => s.poll.source)^[polls] s

theorem Source.afterPolls_succ (polls : Nat) (s : Source) :
    s.afterPolls (polls + 1) = (s.afterPolls polls).poll.source := Function.iterate_succ_apply' _ _ _

namespace StartGate

theorem checked_reply (checks : Nat) (s : Source) :
    checked Trigger.check checks (.reply s) = .reply (s.afterPolls checks) := by
  induction checks generalizing s with
  | zero => rfl
  | succ checks ih => exact ih s.poll.source

theorem assertsAfter_reply (checks : Nat) (s : Source) :
    assertsAfter Trigger.check checks (.reply s) = (s.afterPolls checks).poll.reply.isSome := by
  rw [assertsAfter, checked_reply]
  rfl

/-- As long as a source does not start the run it keeps its replies. -/
theorem supply_afterPolls {s : Source} {polls : Nat}
    (h : ∀ earlier < polls, assertsAfter Trigger.check earlier (.reply s) = false) :
    (s.afterPolls polls).supply = s.supply := by
  induction polls with
  | zero => rfl
  | succ polls ih =>
    have hlast := h polls (Nat.lt_succ_self polls)
    rw [assertsAfter_reply, Option.isSome_eq_false_iff, Option.isNone_iff_eq_none] at hlast
    have hpoll := (s.afterPolls polls).supply_poll
    rw [hlast, Option.toList_none, List.nil_append] at hpoll
    rw [Source.afterPolls_succ, hpoll]
    exact ih fun earlier hearlier => h earlier (Nat.lt_succ_of_lt hearlier)

/-- A source is polled once in each pass, and the last pass alone takes a reply from it, if there is
one. -/
theorem wait_reply {ts : List Trigger} {place : Nat} {s : Source} (h : ts[place]? = some (.reply s))
    (allowance : Nat) :
    let o := wait Trigger.check allowance ts millis
    o.triggers[place]? = some (.reply (s.afterPolls (o.pauses + 1))) ∧
      (s.afterPolls o.pauses).poll.reply.toList ++ (s.afterPolls (o.pauses + 1)).supply =
        s.supply := by
  intro o
  have hquiet : ∀ earlier < o.pauses, assertsAfter Trigger.check earlier (.reply s) = false :=
    fun earlier hearlier =>
      quiet_of_lt_pauses ts allowance hearlier _ (List.mem_of_getElem? h)
  constructor
  · rw [wait_triggers, List.getElem?_map, h, Option.map_some, checked_reply]
  · rw [Source.afterPolls_succ, Source.supply_poll, supply_afterPolls hquiet]

/-! ## The gate -/

/-- Whatever the triggers are, the gate opens in the first pass in which one asserts, for the least
that does, after a pause of the poll interval for each pass before; each pass checks each trigger
once; and the gate never opens exactly if no trigger ever asserts. A source of replies gives one reply
at most, in the pass that opens the gate. -/
theorem gate_opens_first (millis : Nat) :
    (∀ {τ : Type} (check : τ → Bool × τ) (ts : List τ),
      (∀ allowance, let o := wait check allowance ts millis
        (∀ passes trigger, o.trigger = some trigger ∧ o.pauses = passes ↔
          passes ≤ allowance ∧ OpensAfter check ts passes trigger) ∧
        (o.trigger = none → o.pauses = allowance) ∧
        o.triggers = ts.map (checked check (o.pauses + 1)) ∧
        o.delays = List.replicate o.pauses millis) ∧
      ((∀ allowance, (wait check allowance ts millis).trigger = none) ↔
        ∀ checks, ∀ t ∈ ts, assertsAfter check checks t = false)) ∧
    ∀ (ts : List Trigger) (allowance place : Nat) (s : Source), ts[place]? = some (.reply s) →
      let o := wait Trigger.check allowance ts millis
      o.triggers[place]? = some (.reply (s.afterPolls (o.pauses + 1))) ∧
        (s.afterPolls o.pauses).poll.reply.toList ++ (s.afterPolls (o.pauses + 1)).supply =
          s.supply := by
  refine ⟨fun check ts => ⟨fun allowance => ⟨?_, pauses_of_closed, ?_, ?_⟩, ?_⟩, ?_⟩
  · exact wait_opens_iff ts allowance
  · exact wait_triggers ts allowance
  · exact wait_delays ts allowance
  · exact wait_never_opens_iff ts
  · exact fun ts allowance place s h => wait_reply h allowance

/-- Of a countdown and a flag that is raised before its third check, the flag opens the gate. -/
def raisedFlag : List (Shared Trigger) :=
  [⟨.countdown 3, fun _ t => t⟩, ⟨.flag false, fun n t => if n = 2 then .flag true else t⟩]

/-- A countdown opens the gate in the pass in which the first of two replies comes. -/
def countedReply : List Trigger :=
  [.countdown 1, .reply (.polled [none, some .proceed, some .proceed])]

theorem raisedFlag_opens_first : OpensAfter (checkShared Trigger.check) raisedFlag 2 1 ∧
    (wait Trigger.check 9 countedReply 10).trigger = some 0 ∧
    (wait Trigger.check 9 countedReply 10).triggers[1]? =
      some (.reply (.polled [some .proceed])) := by
  obtain ⟨hgate, hreplies⟩ := gate_opens_first 10
  obtain ⟨hwait, _⟩ := hgate (checkShared Trigger.check) raisedFlag
  obtain ⟨hopens, _⟩ := hwait 9
  obtain ⟨htriggers, _⟩ := hreplies countedReply 9 1 _ rfl
  exact ⟨((hopens 2 1).1 ⟨rfl, rfl⟩).2, rfl, htriggers⟩

end StartGate

end LoadBench
