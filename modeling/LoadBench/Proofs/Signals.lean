import LoadBench.Sampling.Cadence
import Mathlib.Algebra.Group.Int.Defs
import Mathlib.Algebra.Group.Nat.Defs

/-!
# Signals of a move

A move tells its cadence of its start, of its ticks and of its end. Nothing makes these signals come
in this order, or once each, or by a clock that goes forward. The numbers of the requests are safe
all the same: they rise, they stay within the samples of the move, and the last of them is the last
number once the end was signalled.
-/

namespace LoadBench

inductive Signal where
  | start (now : Nat)
  | tick (now : Nat)
  | finish
  deriving DecidableEq, Repr

def Signal.clock : Signal → Nat
  | .start now | .tick now => now
  | .finish => 0

namespace Cadence

/-- The number of the request that a signal brings, if it brings one, and the cadence after it. -/
def heed (c : Cadence) : Signal → Option Nat × Cadence
  | .start now => c.start now
  | .tick now => c.tick now
  | .finish => c.complete

def after (c : Cadence) : List Signal → Cadence
  | [] => c
  | s :: ss => (c.heed s).2.after ss

def numbers (c : Cadence) : List Signal → List Nat
  | [] => []
  | s :: ss => (c.heed s).1.toList ++ (c.heed s).2.numbers ss

@[simp] theorem after_nil (c : Cadence) : c.after [] = c := rfl
@[simp] theorem after_cons (c : Cadence) (s : Signal) (ss : List Signal) :
    c.after (s :: ss) = (c.heed s).2.after ss := rfl
@[simp] theorem numbers_nil (c : Cadence) : c.numbers [] = [] := rfl
@[simp] theorem numbers_cons (c : Cadence) (s : Signal) (ss : List Signal) :
    c.numbers (s :: ss) = (c.heed s).1.toList ++ (c.heed s).2.numbers ss := rfl

theorem after_append (c : Cadence) (ss ss' : List Signal) :
    c.after (ss ++ ss') = (c.after ss).after ss' := by
  induction ss generalizing c with
  | nil => rfl
  | cons s ss ih => simpa using ih (c.heed s).2

theorem numbers_append (c : Cadence) (ss ss' : List Signal) :
    c.numbers (ss ++ ss') = c.numbers ss ++ (c.after ss).numbers ss' := by
  induction ss generalizing c with
  | nil => rfl
  | cons s ss ih => simp [ih]

/-! ## One signal -/

/-- All that a signal can come to. -/
inductive Heeded (c : Cadence) : Signal → Option Nat → Cadence → Prop where
  | ignored (s : Signal) : (s = .finish → c.total < c.next) → Heeded c s none c
  | started (now : Nat) : 2 ≤ c.total → c.next = 1 →
    Heeded c (.start now) (some c.next) { c.advance with anchor := now }
  | ticked (now : Nat) : 2 < c.total → c.next < c.total → c.next ≠ 1 →
    c.interval ≤ now - c.anchor →
    Heeded c (.tick now) (some c.next) { c.advance with anchor := c.anchor + c.interval }
  | finished : c.next ≤ c.total → Heeded c .finish (some c.total) { c with next := c.total }.advance

/-- What a cadence does with a signal is one of the things that a signal can come to. -/
theorem heeded (c : Cadence) (s : Signal) : c.Heeded s (c.heed s).1 (c.heed s).2 := by
  cases s with
  | start now =>
    by_cases h : c.dueAtStart
    · have hdue : 2 ≤ c.total ∧ c.next = 1 := by simpa [dueAtStart] using h
      simpa [heed, start, h] using Heeded.started now hdue.1 hdue.2
    · simpa [heed, start, h] using Heeded.ignored (c := c) (.start now) nofun
  | tick now =>
    by_cases h : c.dueAtTick now
    · have hdue : ((2 < c.total ∧ c.next < c.total) ∧ c.next ≠ 1) ∧
          c.interval ≤ now - c.anchor := by
        simpa [dueAtTick] using h
      simpa [heed, tick, h] using Heeded.ticked now hdue.1.1.1 hdue.1.1.2 hdue.1.2 hdue.2
    · simpa [heed, tick, h] using Heeded.ignored (c := c) (.tick now) nofun
  | finish =>
    by_cases h : c.dueAtEnd
    · have hdue : c.next ≤ c.total := by simpa [dueAtEnd] using h
      simpa [heed, complete, h] using Heeded.finished hdue
    · have hover : c.total < c.next := by simpa [dueAtEnd] using h
      simpa [heed, complete, h] using Heeded.ignored (c := c) .finish fun _ => hover

theorem heed_total (c : Cadence) (s : Signal) : (c.heed s).2.total = c.total := by
  have h := c.heeded s
  generalize (c.heed s).1 = r, (c.heed s).2 = c' at h
  cases h <;> rfl

theorem after_total (c : Cadence) (ss : List Signal) : (c.after ss).total = c.total := by
  induction ss generalizing c with
  | nil => rfl
  | cons s ss ih => rw [after_cons, ih, heed_total]

/-- Past the last request no signal brings anything. -/
theorem heed_of_over {c : Cadence} (h : c.total < c.next) (s : Signal) : c.heed s = (none, c) := by
  have hs := c.heeded s
  generalize hr : c.heed s = r at hs
  obtain ⟨i, c'⟩ := r
  cases hs with
  | ignored => rfl
  | started | ticked | finished => omega

theorem after_of_over {c : Cadence} (h : c.total < c.next) (ss : List Signal) : c.after ss = c := by
  induction ss with
  | nil => rfl
  | cons s ss ih => rw [after_cons, heed_of_over h, ih]

theorem numbers_of_over {c : Cadence} (h : c.total < c.next) (ss : List Signal) :
    c.numbers ss = [] := by
  induction ss with
  | nil => rfl
  | cons s ss ih => simp [heed_of_over h, ih]

/-- The end of the move leaves no request to be made. -/
theorem over_of_finish (c : Cadence) : (c.heed .finish).2.total < (c.heed .finish).2.next := by
  have h := c.heeded .finish
  generalize (c.heed .finish).1 = r, (c.heed .finish).2 = c' at h
  cases h with
  | ignored _ hover => exact hover rfl
  | finished => exact Nat.lt_succ_self _

/-! ## The numbers so far -/

/-- The numbers that a cadence has given to its requests so far. -/
structure Numbered (c : Cadence) (made : List Nat) : Prop where
  published : c.published = made.length
  ahead : c.published < c.next
  next_le : c.next ≤ c.total + 1
  rising : made.Pairwise (· < ·)
  within : ∀ i ∈ made, 0 < i ∧ i < c.next
  last : c.total < c.next → made.getLast? = some c.total

/-- A request that is not behind any other. -/
theorem Numbered.push {c c' : Cadence} {made : List Nat} {i : Nat} (h : c.Numbered made)
    (hi : c.next ≤ i) (hle : i ≤ c.total) (htotal : c'.total = c.total) (hnext : c'.next = i + 1)
    (hpublished : c'.published = c.published + 1) : c'.Numbered (made ++ [i]) where
  published := by simp [hpublished, h.published]
  ahead := by have := h.ahead; omega
  next_le := by omega
  rising := by
    simp only [List.pairwise_append, List.pairwise_singleton, List.mem_singleton, true_and]
    refine ⟨h.rising, fun j hj k hk => ?_⟩
    have := (h.within j hj).2
    omega
  within := by
    intro j hj
    have := h.ahead
    simp only [List.mem_append, List.mem_singleton] at hj
    rcases hj with hj | rfl
    · have := h.within j hj
      omega
    · omega
  last := by
    intro hover
    have : i = c.total := by omega
    simp [this, htotal]

theorem Numbered.heed {c : Cadence} {made : List Nat} (h : c.Numbered made) (s : Signal) :
    (c.heed s).2.Numbered (made ++ (c.heed s).1.toList) := by
  have hs := c.heeded s
  generalize (c.heed s).1 = r, (c.heed s).2 = c' at hs
  cases hs with
  | ignored => simpa using h
  | started now htotal hnext => exact h.push (Nat.le_refl _) (by omega) rfl rfl rfl
  | ticked now _ hmore => exact h.push (Nat.le_refl _) (by omega) rfl rfl rfl
  | finished hdue => exact h.push hdue (Nat.le_refl _) rfl rfl rfl

theorem Numbered.after {c : Cadence} {made : List Nat} (h : c.Numbered made) (ss : List Signal) :
    (c.after ss).Numbered (made ++ c.numbers ss) := by
  induction ss generalizing c made with
  | nil => simpa using h
  | cons s ss ih => simpa using ih (h.heed s)

/-! ## Requests on the way -/

/-- Among these signals is a start that brought the first request. -/
def Begins (c : Cadence) (ss : List Signal) : Prop :=
  ∃ front now back, ss = front ++ .start now :: back ∧
    ((c.after front).heed (.start now)).1 = some 1

theorem Begins.cons {c : Cadence} {s : Signal} {ss : List Signal} (h : (c.heed s).2.Begins ss) :
    c.Begins (s :: ss) := by
  obtain ⟨front, now, back, rfl, hfirst⟩ := h
  exact ⟨s :: front, now, back, rfl, hfirst⟩

/-- A cadence that has made its first request and not its last was told of the start. -/
theorem begins_of_next {c : Cadence} {ss : List Signal} (hnew : c.next = 1)
    (hnext : (c.after ss).next ≠ 1) (hmore : (c.after ss).next ≤ c.total) : c.Begins ss := by
  induction ss generalizing c with
  | nil => exact absurd hnew hnext
  | cons s ss ih =>
    rw [after_cons] at hnext hmore
    have hskip (hsilent : c.heed s = (none, c)) : c.Begins (s :: ss) := by
      rw [hsilent] at hnext hmore
      exact Begins.cons (by rw [hsilent]; exact ih hnew hnext hmore)
    cases s with
    | start now =>
      by_cases hdue : c.dueAtStart
      · exact ⟨[], now, ss, rfl, by simp [heed, start, hdue, hnew]⟩
      · exact hskip (by simp [heed, start, hdue])
    | tick now => exact hskip (by simp [heed, tick, dueAtTick, hnew])
    | finish =>
      have hover := over_of_finish c
      rw [after_of_over hover] at hmore
      rw [heed_total] at hover
      omega

/-- Where a number comes from: the first from the start, the last from the end, and one on the way
from a tick after a start that brought the first. -/
inductive Origin (c : Cadence) (front : List Signal) : Signal → Nat → Prop where
  | first (now : Nat) : Origin c front (.start now) 1
  | onTheWay {i : Nat} (now : Nat) : 1 < i → i < c.total → c.Begins front →
    Origin c front (.tick now) i
  | last : Origin c front .finish c.total

/-- Every number comes from the first start, from a tick on the way, or from the end. -/
theorem Numbered.origin {c : Cadence} (h : c.Numbered []) (hnew : c.next = 1) {front : List Signal}
    {s : Signal} {i : Nat} (hi : ((c.after front).heed s).1 = some i) : c.Origin front s i := by
  have hahead := (h.after front).ahead
  have htotal := c.after_total front
  have hs := (c.after front).heeded s
  rw [hi] at hs
  generalize ((c.after front).heed s).2 = c' at hs
  cases hs with
  | started now _ hfirst =>
    rw [hfirst]
    exact .first now
  | ticked now _ hmore hbegun =>
    refine .onTheWay now ?_ (htotal ▸ hmore) ?_
    · omega
    · exact begins_of_next hnew hbegun (by omega)
  | finished =>
    rw [htotal]
    exact .last

/-! ## Counters of a fixed width -/

/-- Numbers fit 32 bits and times fit 64. -/
structure Fits (c : Cadence) : Prop where
  total : c.total < 2 ^ 31
  next : c.next < 2 ^ 32
  published : c.published < 2 ^ 32
  interval : c.interval < 2 ^ 64
  anchor : c.anchor < 2 ^ 64

/-- A tick that brings a request came an interval after the last was due, so that the next anchor is
no later than the tick. -/
theorem Fits.heed {c : Cadence} {made : List Nat} (h : c.Fits) (hc : c.Numbered made) {s : Signal}
    (hs : s.clock < 2 ^ 64) : (c.heed s).2.Fits := by
  have hheeded := c.heeded s
  have hahead := hc.ahead
  have hnext := hc.next_le
  have htotal := h.total
  have hanchor := h.anchor
  generalize (c.heed s).1 = r, (c.heed s).2 = c' at hheeded
  cases hheeded with
  | ignored => exact h
  | started now =>
    simp only [Signal.clock] at hs
    exact ⟨h.total, by simp only [advance]; omega, by simp only [advance]; omega, h.interval, hs⟩
  | ticked now _ _ _ hdue =>
    simp only [Signal.clock] at hs
    exact ⟨h.total, by simp only [advance]; omega, by simp only [advance]; omega, h.interval,
      by simp only; omega⟩
  | finished =>
    exact ⟨h.total, by simp only [advance]; omega, by simp only [advance]; omega, h.interval,
      h.anchor⟩

theorem Fits.after {c : Cadence} {made : List Nat} (h : c.Fits) (hc : c.Numbered made)
    {ss : List Signal} (hss : ∀ s ∈ ss, s.clock < 2 ^ 64) : (c.after ss).Fits := by
  induction ss generalizing c made with
  | nil => exact h
  | cons s ss ih =>
    have hfirst := h.heed hc (hss s List.mem_cons_self)
    exact ih hfirst (hc.heed s) fun s' hs' => hss s' (List.mem_cons_of_mem s hs')

theorem micros_lt (p : Plan) : p.micros < 2 ^ 64 := by
  have hhi : (0 : Int) ≤ 0xFFFFFFFFFFFFFFFF := by decide
  have h := Single.nearest_mem (Int.le_refl 0) hhi (p.seconds * 1000000)
  unfold Plan.micros
  omega

/-! ## All signals -/

section Made

variable {samples : Int} {plan : Plan} {now : Nat} {c : Cadence}

/-- What a cadence is made of. -/
theorem eq_of_ofPlan? (h : ofPlan? samples plan now = some c) : 0 < samples ∧ c =
    { total := samples.toNat
      next := 1
      interval := if 2 < samples.toNat then plan.micros / (samples.toNat - 1) else 0
      anchor := now
      published := 0 } := by
  by_cases hneg : samples ≤ 0
  · simp [ofPlan?, hneg] at h
  · simp only [ofPlan?, hneg, if_false, Option.some.injEq] at h
    exact ⟨by omega, h.symm⟩

theorem numbered_of_ofPlan? (h : ofPlan? samples plan now = some c) :
    c.Numbered [] ∧ c.next = 1 ∧ c.total = samples.toNat := by
  obtain ⟨hpos, rfl⟩ := eq_of_ofPlan? h
  refine ⟨⟨rfl, Nat.one_pos, Nat.le_add_left .., .nil, nofun, ?_⟩, rfl, rfl⟩
  intro hover
  simp only at hover
  omega

theorem fits_of_ofPlan? (h : ofPlan? samples plan now = some c) (hsamples : samples < 2 ^ 31)
    (hnow : now < 2 ^ 64) : c.Fits := by
  obtain ⟨hpos, rfl⟩ := eq_of_ofPlan? h
  have hmicros := micros_lt plan
  have hinterval := Nat.div_le_self plan.micros (samples.toNat - 1)
  refine ⟨by simp only; omega, by simp only; omega, by simp only; omega, ?_, hnow⟩
  simp only
  split <;> omega

/-- Whatever signals a cadence gets, in whatever order, by whatever clock: the numbers of its
requests rise, lie within the samples of its move and are counted; each comes from where it should;
with the first signal of the end they are through, the last number being the last; and no counter
leaves its width. -/
theorem signals_numbered (h : ofPlan? samples plan now = some c) (ss : List Signal) :
    (c.after ss).total = samples.toNat ∧ (c.numbers ss).Pairwise (· < ·) ∧
    (∀ i ∈ c.numbers ss, 1 ≤ i ∧ i ≤ c.total) ∧
    (c.after ss).published = (c.numbers ss).length ∧ (c.after ss).published ≤ c.total ∧
    (∀ front s back i, ss = front ++ s :: back → ((c.after front).heed s).1 = some i →
      c.Origin front s i) ∧
    (∀ front back, ss = front ++ .finish :: back →
      (c.numbers (front ++ [.finish])).getLast? = some c.total ∧
        c.numbers ss = c.numbers (front ++ [.finish])) ∧
    (samples < 2 ^ 31 → now < 2 ^ 64 → (∀ s ∈ ss, s.clock < 2 ^ 64) → (c.after ss).Fits) := by
  obtain ⟨hnumbered, hnew, htotal⟩ := numbered_of_ofPlan? h
  have hall (ss : List Signal) : (c.after ss).Numbered (c.numbers ss) := hnumbered.after ss
  have hsame := c.after_total
  have hss := hall ss
  have hahead := hss.ahead
  have hnext := hss.next_le
  rw [hsame] at hnext
  refine ⟨(hsame ss).trans htotal, hss.rising, ?_, hss.published, by omega, ?_, ?_, ?_⟩
  · intro i hi
    have := hss.within i hi
    omega
  · intro front s back i _ hi
    exact hnumbered.origin hnew hi
  · rintro front back rfl
    have hover : (c.after (front ++ [.finish])).total < (c.after (front ++ [.finish])).next := by
      rw [after_append]
      exact over_of_finish _
    have hlast := (hall (front ++ [.finish])).last hover
    have hrest := numbers_of_over hover back
    rw [hsame] at hlast
    refine ⟨hlast, ?_⟩
    rw [List.append_cons, numbers_append, hrest, List.append_nil]
  · intro hsamples hnow hclock
    exact (fits_of_ofPlan? h hsamples hnow).after hnumbered hclock

end Made

/-- A tick too early, a clock that goes back, and signals after the end. -/
def scrambledSignals : List Signal :=
  [.tick 7, .start 50, .tick 25050, .tick 3, .finish, .start 0, .tick (2 ^ 64 - 1), .finish]

theorem scrambledSignals_numbered : ∃ c, ofPlan? 5 ⟨0, 100, 1000⟩ 1000 = some c ∧
    c.numbers scrambledSignals = [1, 2, 5] ∧ (c.numbers scrambledSignals).Pairwise (· < ·) ∧
      (c.after scrambledSignals).published = 3 ∧ (c.after scrambledSignals).Fits := by
  have hmicros : (⟨0, 100, 1000⟩ : Plan).micros = 100000 := by decide +kernel
  have hmade : ofPlan? 5 ⟨0, 100, 1000⟩ 1000 = some ⟨5, 1, 25000, 1000, 0⟩ := by
    simp [ofPlan?, hmicros]
  have hnumbers : (⟨5, 1, 25000, 1000, 0⟩ : Cadence).numbers scrambledSignals = [1, 2, 5] := by
    decide
  have hclock : ∀ s ∈ scrambledSignals, s.clock < 2 ^ 64 := by decide
  obtain ⟨_, hrising, _, hpublished, _, _, _, hfits⟩ := signals_numbered hmade scrambledSignals
  rw [hnumbers] at hpublished
  exact ⟨_, hmade, hnumbers, hrising, hpublished, hfits (by decide) (by decide) hclock⟩

end Cadence

end LoadBench
