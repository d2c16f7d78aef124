import LoadBench.Proofs.Route
import LoadBench.Proofs.Samples

/-!
# What a move does

A move takes as many ticks as it has steps, one step after the other towards its target. Its
requests are the first at the start, the last on arrival, and between them at most one after each
tick, with consecutive numbers. All this is settled by the plan and by the ticks that are chosen for
requests; the clock and what the actuator was left with decide on those ticks only, and the turns of
the sampling on nothing.
-/

namespace LoadBench

namespace Plan

/-- The requests of a move for so many samples, with intermediate ones after the ticks `ks`. -/
def requests (p : Plan) (u : Single) (samples : Int) (ks : List Nat) : List Request :=
  if samples ≤ 0 then []
  else if samples = 1 then [⟨1, distanceOf p.target u⟩]
  else ⟨1, distanceOf p.start u⟩ ::
    ((ks.zipIdx 2).map fun (k, i) => ⟨i, distanceOf (p.place k) u⟩) ++
      [⟨samples.toNat, distanceOf p.target u⟩]

end Plan

/-! ## Ticks -/

namespace Bench

variable {p : Plan} {taken k : Nat} {b b' : Bench}

/-- The bench is `k` ticks into a move, and the actuator had taken `taken` steps before. -/
structure Underway (b : Bench) (p : Plan) (taken k : Nat) : Prop where
  position : b.actuator.position = p.place k
  target : b.actuator.target = p.target
  speed : b.actuator.speed = p.speed
  taken : b.actuator.taken = taken + k

theorem Underway.of_unmoved (h : b.Underway p taken k) (hb : b.Unmoved b') :
    b'.Underway p taken k := by
  constructor
  · rw [hb.actuator, h.position]
  · rw [hb.actuator, h.target]
  · rw [hb.actuator, h.speed]
  · rw [hb.actuator, h.taken]

theorem Underway.toGo (h : b.Underway p taken k) : b.actuator.toGo = p.target - p.place k := by
  rw [Actuator.toGo, h.position, h.target]

theorem Underway.arrived (h : b.Underway p taken p.length) : b.actuator.toGo = 0 := by
  rw [h.toGo, p.place_length, Int64.sub_self]

theorem Underway.toGo_ne_zero (h : b.Underway p taken k) (hk : k < p.length) :
    b.actuator.toGo ≠ 0 := by
  rw [h.toGo]
  exact p.target_sub_place_ne_zero hk

/-- A tick before the last takes one step. -/
theorem Underway.ticked (h : b.Underway p taken k) (hk : k < p.length) (hspeed : 0 < p.speed) :
    b.ticked.Underway p taken (k + 1) := by
  have hgo : b.actuator.toGo.toInt.sign = p.delta.toInt.sign := by
    rw [h.toGo, p.sign_target_sub_place hk]
  have hsteps : b.actuator.steps := by
    simp [Actuator.steps, h.toGo_ne_zero hk, h.speed, hspeed]
  have htick : b.ticked.actuator = { b.actuator with
      position := b.actuator.position + .ofInt b.actuator.toGo.toInt.sign
      taken := b.actuator.taken + 1
      carry := b.actuator.period - b.actuator.period.floor } := by
    change b.actuator.tick.1 = _
    rw [Actuator.tick, if_pos hsteps]
  constructor
  · rw [htick, hgo, h.position, p.place_succ]
  · rw [htick, h.target]
  · rw [htick, h.speed]
  · rw [htick, h.taken, Nat.add_assoc]

theorem afterOccasion_ticksLeft (b : Bench) (o : Occasion) :
    (b.afterOccasion o).ticksLeft = b.ticksLeft := by
  obtain ⟨m, reads, s, l, n, heq, _⟩ := afterOccasion_attended b o
  rw [heq]

end Bench

namespace Cadence

/-- The cadence `c'` comes from `c` by `n` requests before the last. -/
structure Follows (c c' : Cadence) (n : Nat) : Prop where
  total : c'.total = c.total
  next : c'.next = c.next + n
  published : c'.published = c.published + n
  next_le : c.next ≤ c.total → c'.next ≤ c.total
  early : c.total ≤ 2 → n = 0

theorem Follows.refl (c : Cadence) : c.Follows c 0 := ⟨rfl, rfl, rfl, id, fun _ => rfl⟩

theorem Follows.trans {c c' c'' : Cadence} {m n : Nat} (h : c.Follows c' m)
    (h' : c'.Follows c'' n) : c.Follows c'' (m + n) where
  total := h'.total.trans h.total
  next := by rw [h'.next, h.next, Nat.add_assoc]
  published := by rw [h'.published, h.published, Nat.add_assoc]
  next_le hle := by
    rw [← h.total]
    exact h'.next_le (by rw [h.total]; exact h.next_le hle)
  early htotal := by
    rw [h.early htotal, h'.early (by rwa [h.total])]

/-- A tick of the move makes the next request, which is not the last, or none. -/
theorem tick_follows (c : Cadence) (now : Nat) :
    (∃ c', c.tick now = (some c.next, c') ∧ c.Follows c' 1) ∨ c.tick now = (none, c) := by
  unfold tick
  split
  · next hdue =>
    refine .inl ⟨_, rfl, ?_⟩
    simp only [dueAtTick, Bool.and_eq_true, decide_eq_true_eq] at hdue
    obtain ⟨⟨⟨htotal, hnext⟩, _⟩, _⟩ := hdue
    constructor
    · rfl
    · rfl
    · rfl
    · exact fun _ => hnext
    · intro hfew
      omega
  · exact .inr rfl

/-- From one cadence to another by `n` requests before the last, if there are samples at all. -/
inductive Continues : Option Cadence → Option Cadence → Nat → Prop where
  | none : Continues none none 0
  | some {c c' : Cadence} {n : Nat} : c.Follows c' n → Continues (some c) (some c') n

theorem Continues.refl (c : Option Cadence) : Continues c c 0 := by
  cases c with
  | none => exact .none
  | some c => exact .some (.refl c)

theorem Continues.trans {c c' c'' : Option Cadence} {m n : Nat} (h : Continues c c' m)
    (h' : Continues c' c'' n) : Continues c c'' (m + n) := by
  cases h with
  | none =>
    cases h'
    exact .none
  | some h =>
    cases h' with
    | some h' => exact .some (h.trans h')

def nextOf (c : Option Cadence) : Nat := (c.map next).getD 0

theorem Continues.nextOf_eq {c c' : Option Cadence} {n : Nat} (h : Continues c c' n) :
    nextOf c' = nextOf c + n := by
  cases h with
  | none => rfl
  | some h => exact h.next

end Cadence

/-! ## The way to the target -/

namespace Bench

/-- From tick `k` of a move the bench came to its end, with requests after the ticks `ks`. -/
structure Travelled (b b' : Bench) (p : Plan) (u : Single) (taken k : Nat)
    (c c' : Option Cadence) (ks : List Nat) : Prop where
  arrived : b'.Underway p taken p.length
  continues : Cadence.Continues c c' ks.length
  increasing : ks.Pairwise (· < ·)
  within : ∀ j ∈ ks, k < j ∧ j ≤ p.length
  requests : b'.requests.toList = b.requests.toList ++
    (ks.zipIdx (Cadence.nextOf c)).map fun (j, i) => ⟨i, distanceOf (p.place j) u⟩

variable {p : Plan} {u : Single} {taken k : Nat} {c c₁ c' : Option Cadence} {b b₁ b' : Bench}

theorem Travelled.of_end (h : b.Underway p taken p.length) (c : Option Cadence) :
    b.Travelled b p u taken p.length c c [] where
  arrived := h
  continues := .refl c
  increasing := .nil
  within := nofun
  requests := by simp

/-- One tick more at the front, with a request after it or not. -/
theorem Travelled.after_tick {made : Bool} {ks : List Nat}
    (h : b₁.Travelled b' p u taken (k + 1) c₁ c' ks) (hk : k < p.length)
    (hcontinues : Cadence.Continues c c₁ made.toNat)
    (hrequests : b₁.requests.toList = b.requests.toList ++
      (if made then [⟨Cadence.nextOf c, distanceOf (p.place (k + 1)) u⟩] else [])) :
    ∃ ks', b.Travelled b' p u taken k c c' ks' := by
  have hall := h.requests
  have hboth := hcontinues.trans h.continues
  rw [hrequests, hcontinues.nextOf_eq] at hall
  have hbeyond : ∀ j ∈ ks, k < j ∧ j ≤ p.length := fun j hj =>
    ⟨Nat.lt_of_succ_lt (h.within j hj).1, (h.within j hj).2⟩
  cases made with
  | false =>
    refine ⟨ks, h.arrived, ?_, h.increasing, hbeyond, by simpa using hall⟩
    rw [Bool.toNat_false, Nat.zero_add] at hboth
    exact hboth
  | true =>
    refine ⟨(k + 1) :: ks, h.arrived, ?_, ?_, ?_, by simpa using hall⟩
    · rw [List.length_cons, Nat.add_comm]
      exact hboth
    · exact List.pairwise_cons.2 ⟨fun j hj => (h.within j hj).1, h.increasing⟩
    · intro j hj
      rcases List.mem_cons.1 hj with rfl | hj
      · exact ⟨Nat.lt_succ_self k, hk⟩
      · exact hbeyond j hj

end Bench

namespace Action

variable {p : Plan} {u : Single} {taken k : Nat} {b : Bench}

/-- Whoever follows a cadence posts the request that its step makes, and nothing else happens. -/
theorem follow_some (step : Cadence → Nat → Option Nat × Cadence) (u : Single) (c : Cadence)
    (b : Bench) : ∃ b', follow step u (some c) b =
        .ok ((step c b.clock.toNat).1.isSome, some (step c b.clock.toNat).2) b' ∧
      b'.requests.toList = b.requests.toList ++
        (step c b.clock.toNat).1.toList.map (⟨·, distanceOf b.actuator.position u⟩) ∧
      b'.ticksLeft = b.ticksLeft ∧ b.Unmoved b' := by
  rw [follow, get_bind_apply]
  rcases step c b.clock.toNat with ⟨_ | i, c'⟩
  · exact ⟨b, rfl, by simp, rfl, .refl b⟩
  · have hspared := b.afterOccasion_spared .request
    have hunmoved := b.afterOccasion_unmoved .request
    have hleft := b.afterOccasion_ticksLeft .request
    obtain ⟨log, hposted⟩ :=
      Bench.posted_eq (b.afterOccasion .request) ⟨i, distanceOf b.actuator.position u⟩
    refine ⟨(b.afterOccasion .request).posted _, rfl, ?_, ?_, ?_⟩
    · rw [hposted]
      simp [hspared.requests]
    · rw [hposted]
      exact hleft
    · rw [hposted]
      exact ⟨hunmoved.actuator, hunmoved.clock, hunmoved.position⟩

/-- Whatever a cadence asks for, what was posted stays posted and the actuator stays where it is. -/
theorem follow_any (step : Cadence → Nat → Option Nat × Cadence) (u : Single)
    (c : Option Cadence) (b : Bench) : ∃ made c' b', follow step u c b = .ok (made, c') b' ∧
      b.requests.toList <+: b'.requests.toList ∧ b.Unmoved b' := by
  cases c with
  | none => exact ⟨false, none, b, rfl, List.prefix_refl _, .refl b⟩
  | some c =>
    obtain ⟨b', hfollow, hrequests, _, hunmoved⟩ := follow_some step u c b
    exact ⟨_, _, b', hfollow, ⟨_, hrequests.symm⟩, hunmoved⟩

/-- After a tick there is the next request at the place where the actuator stands, or none. -/
theorem follow_tick (u : Single) (c : Option Cadence) (b : Bench) :
    ∃ made c' b', follow Cadence.tick u c b = .ok (made, c') b' ∧
      Cadence.Continues c c' made.toNat ∧ b'.requests.toList = b.requests.toList ++
        (if made then [⟨Cadence.nextOf c, distanceOf b.actuator.position u⟩] else []) ∧
      b'.ticksLeft = b.ticksLeft ∧ b.Unmoved b' := by
  cases c with
  | none => exact ⟨false, none, b, rfl, .none, by simp, rfl, .refl b⟩
  | some c =>
    obtain ⟨b', hfollow, hrequests, hleft, hunmoved⟩ := follow_some Cadence.tick u c b
    rcases c.tick_follows b.clock.toNat with ⟨c', htick, hfollows⟩ | htick
    · rw [htick] at hfollow hrequests
      exact ⟨true, some c', b', hfollow, .some hfollows, hrequests, hleft, hunmoved⟩
    · rw [htick] at hfollow hrequests
      exact ⟨false, some c, b', hfollow, .refl _, hrequests, hleft, hunmoved⟩

/-- One tick of the way, if there are ticks left. -/
theorem tick_completes (h : b.Underway p taken k) (hk : k < p.length) (hspeed : 0 < p.speed)
    (hleft : p.length - k ≤ b.ticksLeft) : ∃ b', tick b = .ok () b' ∧
      b'.Underway p taken (k + 1) ∧ b'.requests = b.requests ∧
      p.length - (k + 1) ≤ b'.ticksLeft := by
  have hne : b.ticksLeft ≠ 0 := by omega
  let spent : Bench := { b with ticksLeft := b.ticksLeft - 1 }
  have hspent : b.Unmoved spent := ⟨rfl, rfl, rfl⟩
  have hunmoved := spent.afterOccasion_unmoved (.tick b.ticks)
  have hspared := spent.afterOccasion_spared (.tick b.ticks)
  have hkept : (spent.afterOccasion (.tick b.ticks)).ticksLeft = b.ticksLeft - 1 :=
    spent.afterOccasion_ticksLeft (.tick b.ticks)
  have hway := h.of_unmoved (hspent.trans hunmoved)
  refine ⟨(spent.afterOccasion (.tick b.ticks)).ticked, ?_, hway.ticked hk hspeed,
    hspared.requests, ?_⟩
  · rw [tick, get_bind_apply, if_neg hne]
    rfl
  · change p.length - (k + 1) ≤ (spent.afterOccasion (.tick b.ticks)).ticksLeft
    omega

theorem travel_of_arrived {allowance ticks : Nat} {c : Option Cadence} (h : b.actuator.toGo = 0) :
    travel u allowance c ticks b = .ok (ticks, c) b := by
  cases allowance <;> rw [travel, get_bind_apply, if_pos h] <;> rfl

/-- One tick of the way, and what is left of it; a request that was made is reported. -/
theorem travel_of_toGo (allowance ticks : Nat) {c c' : Option Cadence} {made : Bool}
    {b₁ b₂ : Bench} (h : b.actuator.toGo ≠ 0) (htick : tick b = .ok () b₁)
    (hfollow : follow Cadence.tick u c b₁ = .ok (made, c') b₂) :
    ∃ b₃, b₂.Unmoved b₃ ∧ b₃.requests = b₂.requests ∧ b₃.ticksLeft = b₂.ticksLeft ∧
      travel u (allowance + 1) c ticks b = travel u allowance c' (ticks + 1) b₃ := by
  rw [travel, get_bind_apply, if_neg h, bind_of_ok htick, bind_of_ok hfollow]
  cases made with
  | false => exact ⟨b₂, .refl b₂, rfl, rfl, rfl⟩
  | true => exact ⟨b₂.noted _, ⟨rfl, rfl, rfl⟩, rfl, rfl, rfl⟩

/-- With enough ticks left, the rest of the way is travelled to its end. -/
theorem travel_completes (u : Single) (c : Option Cadence) (allowance ticks : Nat)
    (hspeed : 0 < p.speed) (h : b.Underway p taken k) (hk : k ≤ p.length)
    (hallowance : p.length - k ≤ allowance) (hleft : p.length - k ≤ b.ticksLeft) :
    ∃ c' b' ks, travel u allowance c ticks b = .ok (ticks + (p.length - k), c') b' ∧
      b.Travelled b' p u taken k c c' ks := by
  -- The allowance falls as `k` rises, so that it never runs out before the way ends.
  induction allowance generalizing c ticks k b with
  | zero =>
    have hend : k = p.length := by omega
    subst hend
    refine ⟨c, b, [], ?_, .of_end h c⟩
    rw [travel_of_arrived h.arrived, Nat.sub_self, Nat.add_zero]
  | succ allowance ih =>
    by_cases hend : k = p.length
    · subst hend
      refine ⟨c, b, [], ?_, .of_end h c⟩
      rw [travel_of_arrived h.arrived, Nat.sub_self, Nat.add_zero]
    · have hlt : k < p.length := by omega
      obtain ⟨b₁, htick, hway, hrequests₁, hleft₁⟩ := tick_completes h hlt hspeed hleft
      obtain ⟨made, c₁, b₂, hfollow, hcontinues, hrequests₂, hleft₂, hunmoved₂⟩ :=
        follow_tick u c b₁
      obtain ⟨b₃, hunmoved₃, hrequests₃, hleft₃, htravel⟩ :=
        travel_of_toGo allowance ticks (h.toGo_ne_zero hlt) htick hfollow
      obtain ⟨c', b', ks, hrest, htravelled⟩ :=
        ih c₁ (ticks + 1) (hway.of_unmoved (hunmoved₂.trans hunmoved₃)) hlt (by omega) (by omega)
      rw [hrequests₁, hway.position, ← hrequests₃] at hrequests₂
      obtain ⟨ks', htravelled'⟩ := htravelled.after_tick hlt hcontinues hrequests₂
      refine ⟨c', b', ks', ?_, htravelled'⟩
      have hticks : ticks + 1 + (p.length - (k + 1)) = ticks + (p.length - k) := by omega
      rw [htravel, hrest, hticks]

/-- A cadence that is due whenever it sees the clock posts its next request after the first tick. -/
theorem travel_posts (u : Single) (allowance : Nat) {c : Cadence}
    (hdue : ∀ now, (c.tick now).1 = some c.next) (hspeed : 0 < p.speed)
    (h : b.Underway p taken 0) (hlength : 0 < p.length) (hallowance : p.length ≤ allowance)
    (hleft : p.length ≤ b.ticksLeft) : ∃ ticks c' b',
      travel u allowance (some c) 0 b = .ok (ticks, c') b' ∧
        ⟨c.next, distanceOf (p.place 1) u⟩ ∈ b'.requests.toList := by
  obtain ⟨rest, rfl⟩ : ∃ rest, allowance = rest + 1 := ⟨allowance - 1, by omega⟩
  obtain ⟨b₁, htick, hway, _, hleft₁⟩ := tick_completes h hlength hspeed (by omega)
  obtain ⟨b₂, hfollow, hrequests₂, hleft₂, hunmoved₂⟩ := follow_some Cadence.tick u c b₁
  obtain ⟨b₃, hunmoved₃, hrequests₃, hleft₃, htravel⟩ :=
    travel_of_toGo rest 0 (h.toGo_ne_zero hlength) htick hfollow
  obtain ⟨c', b', ks, hrest, htravelled⟩ := travel_completes u _ rest 1 hspeed
    (hway.of_unmoved (hunmoved₂.trans hunmoved₃)) hlength (by omega) (by omega)
  refine ⟨_, c', b', htravel.trans hrest, ?_⟩
  rw [htravelled.requests, hrequests₃, hrequests₂, hdue, hway.position]
  simp

end Action

/-- Increasing numbers between two bounds are no more than there is room for. -/
theorem length_le_of_pairwise_lt {k n : Nat} {ks : List Nat} (h : ks.Pairwise (· < ·))
    (hwithin : ∀ j ∈ ks, k < j ∧ j ≤ n) : ks.length ≤ n - k := by
  induction ks generalizing k with
  | nil => exact Nat.zero_le _
  | cons j ks ih =>
    obtain ⟨hlater, hks⟩ := List.pairwise_cons.1 h
    obtain ⟨hj, hj'⟩ := hwithin j List.mem_cons_self
    have hrest := ih hks fun i hi => ⟨hlater i hi, (hwithin i (List.mem_cons_of_mem _ hi)).2⟩
    rw [List.length_cons]
    omega

/-! ## The whole move -/

/-- What a completed move comes to, with intermediate requests after the ticks `ks`. -/
structure MoveReport.Traces (r : MoveReport) (p : Plan) (target u : Single) (samples : Int)
    (ks : List Nat) (b b' : Bench) : Prop where
  plan : r.plan = p
  ticks : r.ticks = p.length
  taken : b'.actuator.taken = b.actuator.taken + p.length
  arrived : b'.actuator.position = p.target
  position : b'.position = target
  passes : p.Passes ks
  requests : b'.requests.toList = b.requests.toList ++ p.requests u samples ks
  counted : r.samples = (p.requests u samples ks).length
  fits : 2 ≤ samples → 2 ≤ r.samples ∧ r.samples ≤ min samples.toNat (p.length + 2)

namespace Cadence

structure Begun (samples : Int) (c : Cadence) : Prop where
  total : c.total = samples.toNat
  next : c.next = if 2 ≤ samples then 2 else 1
  published : c.published + 1 = c.next

theorem ofPlan?_of_nonpos {samples : Int} (h : samples ≤ 0) (plan : Plan) (now : Nat) :
    ofPlan? samples plan now = none := if_pos h

/-- A first request is due at the start, unless it is the only one. -/
theorem start_begun {samples : Int} (h : 0 < samples) (plan : Plan) (now now' : Nat) :
    ∃ c, ofPlan? samples plan now = some c ∧ (c.start now').2.Begun samples ∧
      (c.start now').1 = if 2 ≤ samples then some 1 else none := by
  have hpos : ¬ samples ≤ 0 := by omega
  rw [ofPlan?, if_neg hpos]
  refine ⟨_, rfl, ?_⟩
  by_cases htwo : 2 ≤ samples
  · have hdue : 2 ≤ samples.toNat := by omega
    rw [start, if_pos (by simp [dueAtStart, hdue]), if_pos htwo]
    refine ⟨⟨rfl, ?_, rfl⟩, rfl⟩
    simp [advance, htwo]
  · have hdue : ¬ 2 ≤ samples.toNat := by omega
    rw [start, if_neg (by simp [dueAtStart, hdue]), if_neg htwo]
    refine ⟨⟨rfl, ?_, rfl⟩, rfl⟩
    simp [htwo]

/-- A move that takes less than half a microsecond makes its second request after any tick. -/
theorem start_due {samples : Int} {plan : Plan} (h : 2 < samples) (hmicros : plan.micros = 0)
    (now now' : Nat) : ∃ c, ofPlan? samples plan now = some c ∧ (c.start now').2.next = 2 ∧
      ∀ now'', ((c.start now').2.tick now'').1 = some 2 := by
  have hpos : ¬ samples ≤ 0 := by omega
  have htotal : 2 < samples.toNat := by omega
  have htwo : 2 ≤ samples.toNat := Nat.le_of_lt htotal
  rw [ofPlan?, if_neg hpos]
  refine ⟨_, rfl, ?_⟩
  rw [start, if_pos (by simp [dueAtStart, htwo])]
  refine ⟨rfl, fun now'' => ?_⟩
  rw [tick, if_pos (by simp [dueAtTick, advance, htotal, hmicros])]
  rfl

/-- Where the samples of a move end: the last request is due, whatever came before it. -/
theorem Begun.ended {samples : Int} {c c' : Cadence} {n : Nat} (h : c.Begun samples)
    (hpos : 0 < samples) (hn : c.Follows c' n) :
    c'.complete.1 = some samples.toNat ∧ c'.complete.2.published = c.next + n ∧
      (samples < 2 → n = 0) ∧ (2 ≤ samples → c.next + n ≤ samples.toNat) := by
  have htotal := h.total
  have hnext := h.next
  have hle : c.next ≤ c.total := by
    split at hnext <;> omega
  have hle' : c'.next ≤ c'.total := by
    rw [hn.total]
    exact hn.next_le hle
  have hdue : c'.dueAtEnd := decide_eq_true hle'
  rw [complete, if_pos hdue]
  refine ⟨?_, ?_, fun hfew => hn.early (by omega), fun _ => ?_⟩
  · rw [hn.total, htotal]
  · change c'.published + 1 = c.next + n
    rw [hn.published, ← h.published]
    omega
  · rw [← hn.next, ← htotal, ← hn.total]
    exact hle'

end Cadence

/-- The requests of a move for some samples, from those at its start, on its way and at its end. -/
theorem Plan.requests_of_pos (p : Plan) (u : Single) {samples : Int} (h : 0 < samples)
    {ks : List Nat} (hfew : samples < 2 → ks = []) :
    p.requests u samples ks = (if 2 ≤ samples then [⟨1, distanceOf p.start u⟩] else []) ++
      ((ks.zipIdx (if 2 ≤ samples then 2 else 1)).map fun (k, i) =>
        ⟨i, distanceOf (p.place k) u⟩) ++ [⟨samples.toNat, distanceOf p.target u⟩] := by
  have hpos : ¬ samples ≤ 0 := by omega
  rw [requests, if_neg hpos]
  by_cases htwo : 2 ≤ samples
  · rw [if_neg (by omega), if_pos htwo, if_pos htwo]
    rfl
  · have hone : samples = 1 := by omega
    rw [hfew (by omega), if_pos hone, if_neg htwo, hone]
    rfl

namespace Bench

variable {b : Bench} {plan : Plan}

/-- The bench of a move that is about to begin. -/
def setOff (b : Bench) (target : Single) (plan : Plan) : Bench :=
  ((b.noted (.moving target plan.target plan.delta plan.speed plan.seconds)).afterOccasion
    .move).aimed plan

/-- A move that sets off is at the first place of its route. -/
theorem setOff_underway (h : plan.start = b.actuator.position) (target : Single) :
    (b.setOff target plan).Underway plan b.actuator.taken 0 := by
  have hunmoved := (afterOccasion_unmoved
    (b.noted (.moving target plan.target plan.delta plan.speed plan.seconds)) .move).actuator
  have hposition := congrArg Actuator.position hunmoved
  have htaken := congrArg Actuator.taken hunmoved
  constructor
  · rw [plan.place_zero, h]
    exact hposition
  · rfl
  · rfl
  · exact htaken

theorem setOff_requests (b : Bench) (target : Single) (plan : Plan) :
    (b.setOff target plan).requests = b.requests :=
  (afterOccasion_spared
    (b.noted (.moving target plan.target plan.delta plan.speed plan.seconds)) .move).requests

theorem setOff_ticksLeft (b : Bench) (target : Single) (plan : Plan) :
    (b.setOff target plan).ticksLeft = b.ticksLeft :=
  afterOccasion_ticksLeft
    (b.noted (.moving target plan.target plan.delta plan.speed plan.seconds)) .move

end Bench

namespace Action

variable {b : Bench} {plan : Plan} {u : Single}

/-- A move whose plan is accepted drives. -/
theorem move_of_plan {target feedrate : Single} {samples : Int}
    (h : Plan.make b.actuator.position target feedrate u = .ok plan) :
    move target feedrate samples u b = drive target samples u plan b := by
  rw [move_eq, get_bind_apply, h]
  rfl

theorem start_of_plan {target feedrate : Single} {start : Steps}
    (h : Plan.make start target feedrate u = .ok plan) : plan.start = start := by
  unfold Plan.make at h
  split at h
  · cases h
    rfl
  · cases h

/-- A drive is put together from its start, its way and its end. -/
theorem drive_of {target : Single} {samples : Int} {b₂ b₃ b₄ : Bench} {made₁ made₃ : Bool}
    {c₁ c₂ c₃ : Option Cadence} {ticks : Nat}
    (hstart : follow Cadence.start u
      (Cadence.ofPlan? samples plan (b.setOff target plan).clock.toNat) (b.setOff target plan) =
        .ok (made₁, c₁) b₂)
    (hway : travel u (b₂.ticksLeft + 1) c₁ 0 b₂ = .ok (ticks, c₂) b₃)
    (hend : follow (fun c _ => c.complete) u c₂ b₃ = .ok (made₃, c₃) b₄) :
    drive target samples u plan b =
      .ok ⟨plan, (c₃.map Cadence.published).getD 0, ticks⟩ { b₄ with position := target } := by
  rw [drive, note_bind_apply, occasion_bind_apply, modify_bind_apply, get_bind_apply]
  change (follow Cadence.start u (Cadence.ofPlan? samples plan (b.setOff target plan).clock.toNat)
    >>= _ : Action MoveReport) (b.setOff target plan) = _
  rw [bind_of_ok hstart]
  change (travel u (b₂.ticksLeft + 1) c₁ 0 >>= _ : Action MoveReport) b₂ = _
  rw [bind_of_ok hway]
  change (follow _ u c₂ >>= _ : Action MoveReport) b₃ = _
  rw [bind_of_ok hend]
  rfl

/-- Without samples a move posts nothing. -/
theorem drive_trace_of_nonpos {target : Single} {samples : Int} (hsamples : samples ≤ 0)
    (hstart : plan.start = b.actuator.position) (hspeed : 0 < plan.speed)
    (hticks : plan.length ≤ b.ticksLeft) : ∃ r b' ks,
      drive target samples u plan b = .ok r b' ∧ r.Traces plan target u samples ks b b' := by
  have hleft : plan.length ≤ (b.setOff target plan).ticksLeft := by
    rw [b.setOff_ticksLeft]
    exact hticks
  obtain ⟨c, b', ks, htravel, hway, hcontinues, hks, hwithin, hrequests⟩ :=
    travel_completes u none ((b.setOff target plan).ticksLeft + 1) 0 hspeed
      (Bench.setOff_underway hstart target) (Nat.zero_le _) (by omega) hleft
  generalize hmade : ks.length = n at hcontinues
  cases hcontinues
  have hnone : ks = [] := List.length_eq_zero_iff.1 hmade
  subst hnone
  rw [b.setOff_requests] at hrequests
  have hfollow : follow Cadence.start u
      (Cadence.ofPlan? samples plan (b.setOff target plan).clock.toNat) (b.setOff target plan) =
        .ok (false, none) (b.setOff target plan) := by
    rw [Cadence.ofPlan?_of_nonpos hsamples]
    rfl
  have hend : follow (fun c _ => c.complete) u none b' = .ok (false, none) b' := rfl
  refine ⟨_, _, [], drive_of hfollow htravel hend, rfl, ?_, hway.taken, ?_, rfl,
    plan.passes_of_increasing hks hwithin, ?_, ?_, ?_⟩
  · simp
  · exact hway.position.trans plan.place_length
  · simpa [Plan.requests, hsamples] using hrequests
  · simp [Plan.requests, hsamples]
  · intro htwo
    omega

/-- With samples a move posts what its cadence makes of the start, the ticks and the end. -/
theorem drive_trace_of_pos {target : Single} {samples : Int} (hsamples : 0 < samples)
    (hstart : plan.start = b.actuator.position) (hspeed : 0 < plan.speed)
    (hticks : plan.length ≤ b.ticksLeft) : ∃ r b' ks,
      drive target samples u plan b = .ok r b' ∧ r.Traces plan target u samples ks b b' := by
  have hway₁ := Bench.setOff_underway hstart target
  obtain ⟨c, hc, hbegun, hfirst⟩ := Cadence.start_begun hsamples plan
    (b.setOff target plan).clock.toNat (b.setOff target plan).clock.toNat
  obtain ⟨b₂, hfollow₂, hrequests₂, hleft₂, hunmoved₂⟩ :=
    follow_some Cadence.start u c (b.setOff target plan)
  have hleft : plan.length ≤ b₂.ticksLeft := by
    rw [hleft₂, b.setOff_ticksLeft]
    exact hticks
  generalize hbegins : c.start (b.setOff target plan).clock.toNat = first at *
  obtain ⟨c₃, b₃, ks, htravel, hway₃, hcontinues, hks, hwithin, hrequests₃⟩ :=
    travel_completes u (some first.2) (b₂.ticksLeft + 1) 0 hspeed (hway₁.of_unmoved hunmoved₂)
      (Nat.zero_le _) (by omega) hleft
  generalize hn : ks.length = n at hcontinues
  cases hcontinues with
  | some hfollows =>
    rename_i c₃
    obtain ⟨hlast, hpublished, hfew, hmany⟩ := hbegun.ended hsamples hfollows
    obtain ⟨b₄, hfollow₄, hrequests₄, _, hunmoved₄⟩ :=
      follow_some (fun c _ => c.complete) u c₃ b₃
    have hway := hway₃.of_unmoved hunmoved₄
    have hroom := length_le_of_pairwise_lt hks hwithin
    have hposted := plan.requests_of_pos u hsamples
      fun h => List.length_eq_zero_iff.1 (hn.trans (hfew h))
    have hall : b₄.requests.toList = b.requests.toList ++ plan.requests u samples ks := by
      have hnext : Cadence.nextOf (some first.2) = _ := hbegun.next
      rw [hrequests₄, hrequests₃, hrequests₂, b.setOff_requests, hlast, hfirst, hnext, hposted,
        hway₁.position, hway₃.position, plan.place_zero, plan.place_length]
      split <;> simp
    have hcount : (plan.requests u samples ks).length = first.2.next + ks.length := by
      rw [hposted, hbegun.next]
      split <;> simp <;> omega
    have hsum : c₃.complete.2.published = (plan.requests u samples ks).length := by
      rw [hpublished, hcount, hn]
    rw [← hc] at hfollow₂
    refine ⟨_, { b₄ with position := target }, ks, drive_of hfollow₂ htravel hfollow₄, rfl, ?_,
      hway.taken, hway.position.trans plan.place_length, rfl,
      plan.passes_of_increasing hks hwithin, hall, hsum, fun htwo => ?_⟩
    · simp
    · have hfit := hmany htwo
      have hnext := hbegun.next
      change 2 ≤ c₃.complete.2.published ∧ c₃.complete.2.published ≤ _
      rw [if_pos htwo] at hnext
      rw [hpublished]
      omega

/-- A move for three samples or more that takes less than half a microsecond posts the second of them
after its first tick. -/
theorem drive_posts {target : Single} {samples : Int} (hsamples : 2 < samples)
    (hmicros : plan.micros = 0) (hstart : plan.start = b.actuator.position)
    (hspeed : 0 < plan.speed) (hlength : 0 < plan.length) (hticks : plan.length ≤ b.ticksLeft) :
    ∃ r b', drive target samples u plan b = .ok r b' ∧
      ⟨2, distanceOf (plan.place 1) u⟩ ∈ b'.requests.toList := by
  obtain ⟨c, hc, hnext, hdue⟩ := Cadence.start_due hsamples hmicros
    (b.setOff target plan).clock.toNat (b.setOff target plan).clock.toNat
  obtain ⟨b₂, hfollow₂, _, hleft₂, hunmoved₂⟩ :=
    follow_some Cadence.start u c (b.setOff target plan)
  rw [← hnext] at hdue ⊢
  rw [← b.setOff_ticksLeft target plan, ← hleft₂] at hticks
  obtain ⟨ticks, c₃, b₃, htravel, hposted⟩ := travel_posts u (b₂.ticksLeft + 1) hdue hspeed
    ((Bench.setOff_underway hstart target).of_unmoved hunmoved₂) hlength (by omega) hticks
  obtain ⟨made, c₄, b₄, hend, hmore, _⟩ := follow_any (fun c _ => c.complete) u c₃ b₃
  rw [← hc] at hfollow₂
  exact ⟨_, _, drive_of hfollow₂ htravel hend, hmore.subset hposted⟩

/-- A bench whose actuator was left on its way from step 6 to step 9. -/
def strandedBench : Bench :=
  { plainBench with actuator := { position := 6, target := 9, speed := 3, taken := 6 } }

def behindBench : Bench := { plainBench with actuator := { position := -80 } }

end Action

end LoadBench
