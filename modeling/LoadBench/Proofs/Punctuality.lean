import LoadBench.Proofs.Signals
import Mathlib.Data.List.Chain
import Mathlib.Data.List.Pairwise

/-!
# Samples on the way do not drift

Due times are laid out from the start of the move, a whole number of intervals after it, whatever
ticks there were. So a tick that comes late makes its request late and no other: ticks that are
close enough to each other make every request at the first tick that can, and ticks that are further
apart than the interval make one request each.
-/

namespace LoadBench

namespace Cadence

def ticked (c : Cadence) (ts : List Nat) : Cadence := c.after (ts.map .tick)

def intermediates (c : Cadence) (ts : List Nat) : List Nat := c.numbers (ts.map .tick)

@[simp] theorem ticked_nil (c : Cadence) : c.ticked [] = c := rfl
@[simp] theorem ticked_cons (c : Cadence) (t : Nat) (ts : List Nat) :
    c.ticked (t :: ts) = (c.tick t).2.ticked ts := rfl
@[simp] theorem intermediates_nil (c : Cadence) : c.intermediates [] = [] := rfl
@[simp] theorem intermediates_cons (c : Cadence) (t : Nat) (ts : List Nat) :
    c.intermediates (t :: ts) = (c.tick t).1.toList ++ (c.tick t).2.intermediates ts := rfl

/-- The number of the request that a tick brings after other ticks, if it brings one. -/
def answer (c : Cadence) (front : List Nat) (t : Nat) : Option Nat := ((c.ticked front).tick t).1

variable {c : Cadence} {total interval begun made t : Nat} {ts : List Nat}

/-! ## One tick -/

/-- The cadence has made its first request when the move had begun, and so many on the way. -/
structure OnTheWay (c : Cadence) (total interval begun made : Nat) : Prop where
  total_eq : c.total = total
  interval_eq : c.interval = interval
  next_eq : c.next = made + 2
  anchor_eq : c.anchor = begun + made * interval
  left : made + 2 ≤ total

theorem onTheWay_of_start (hnew : c.next = 1) (htotal : 2 < c.total) (begun : Nat) :
    (c.start begun).1 = some 1 ∧ (c.start begun).2.OnTheWay c.total c.interval begun 0 := by
  have hdue : c.dueAtStart := by simp [dueAtStart, hnew]; omega
  simp only [start, hdue, if_true, hnew, true_and]
  exact ⟨rfl, rfl, by simp [advance, hnew], by simp, by omega⟩

/-- A request on the way falls due a whole number of intervals after the start. -/
theorem OnTheWay.dueAtTick (h : c.OnTheWay total interval begun made) (hbegun : begun ≤ t) :
    c.dueAtTick t ↔ made < total - 2 ∧ begun + (made + 1) * interval ≤ t := by
  have hleft := h.left
  simp only [Cadence.dueAtTick, h.total_eq, h.interval_eq, h.next_eq, h.anchor_eq, Nat.succ_mul,
    Bool.and_eq_true, decide_eq_true_eq, bne_iff_ne]
  by_cases hzero : interval = 0
  · simp only [hzero, Nat.mul_zero]
    omega
  · generalize made * interval = passed
    omega

theorem OnTheWay.tick_due (h : c.OnTheWay total interval begun made) (hmore : made < total - 2)
    (hdue : begun + (made + 1) * interval ≤ t) :
    (c.tick t).1 = some (made + 2) ∧ (c.tick t).2.OnTheWay total interval begun (made + 1) := by
  have htick := (h.dueAtTick (by omega)).2 ⟨hmore, hdue⟩
  simp only [tick, htick, if_true, h.next_eq, true_and]
  refine ⟨h.total_eq, h.interval_eq, ?_, ?_, by omega⟩
  · simp only [advance, h.next_eq]
  · simp only [h.anchor_eq, h.interval_eq, Nat.succ_mul, Nat.add_assoc]

theorem OnTheWay.tick_not_due (h : c.OnTheWay total interval begun made) (hbegun : begun ≤ t)
    (hnot : ¬(made < total - 2 ∧ begun + (made + 1) * interval ≤ t)) : c.tick t = (none, c) := by
  simp [tick, mt (h.dueAtTick hbegun).1 hnot]

/-- A tick makes the next request if that is due, and else nothing. -/
theorem OnTheWay.tick_eq (h : c.OnTheWay total interval begun made) (hbegun : begun ≤ t) :
    (c.tick t).1 =
      if made < total - 2 ∧ begun + (made + 1) * interval ≤ t then some (made + 2) else none := by
  by_cases hdue : made < total - 2 ∧ begun + (made + 1) * interval ≤ t
  · rw [if_pos hdue, (h.tick_due hdue.1 hdue.2).1]
  · rw [if_neg hdue, h.tick_not_due hbegun hdue]

/-! ## Ticks in order -/

/-- Ticks make requests in order of their numbers, and none twice. -/
theorem OnTheWay.ticked (h : c.OnTheWay total interval begun made) (hts : ∀ t ∈ ts, begun ≤ t) :
    (c.ticked ts).OnTheWay total interval begun (made + (c.intermediates ts).length) ∧
      c.intermediates ts = List.range' (made + 2) (c.intermediates ts).length := by
  induction ts generalizing c made with
  | nil => exact ⟨h, rfl⟩
  | cons t ts ih =>
    have hlater : ∀ t ∈ ts, begun ≤ t := fun t ht => hts t (List.mem_cons_of_mem _ ht)
    by_cases hdue : made < total - 2 ∧ begun + (made + 1) * interval ≤ t
    · obtain ⟨hnumber, hnext⟩ := h.tick_due hdue.1 hdue.2
      obtain ⟨hway, hrange⟩ := ih hnext hlater
      simp only [ticked_cons, intermediates_cons, hnumber, Option.toList_some,
        List.singleton_append, List.length_cons, List.range'_succ]
      refine ⟨?_, congrArg _ hrange⟩
      rwa [Nat.add_assoc, Nat.add_comm 1] at hway
    · have hidle := h.tick_not_due (hts t List.mem_cons_self) hdue
      simpa [hidle] using ih h hlater

/-- All requests that are due by now are made. -/
structure UpToDate (total interval begun made now : Nat) : Prop where
  due : begun + made * interval ≤ now
  notDue : made < total - 2 → now < begun + (made + 1) * interval

/-- Ticks no further apart than the interval never leave more than one request to be made. -/
theorem OnTheWay.upToDate {now : Nat} (h : c.OnTheWay total interval begun made)
    (hnow : UpToDate total interval begun made now) (hforward : (now :: ts).Pairwise (· ≤ ·))
    (hgaps : (now :: ts).IsChain fun s t => t ≤ s + interval) :
    UpToDate total interval begun (made + (c.intermediates ts).length) (ts.getLastD now) := by
  induction ts generalizing c made now with
  | nil => exact hnow
  | cons t ts ih =>
    have hlater := hforward.rel_head (R := (· ≤ ·)) (a := t) (by simp)
    have hgap := hgaps.rel
    have hmade := hnow.due
    rw [List.getLastD_cons]
    simp only [List.head_cons] at hlater
    by_cases hdue : made < total - 2 ∧ begun + (made + 1) * interval ≤ t
    · obtain ⟨hnumber, hnext⟩ := h.tick_due hdue.1 hdue.2
      have hnotDue := hnow.notDue hdue.1
      have hup : UpToDate total interval begun (made + 1) t :=
        ⟨hdue.2, fun _ => by rw [Nat.succ_mul (made + 1)]; omega⟩
      have hall := ih hnext hup hforward.of_cons hgaps.tail
      rw [Nat.add_assoc, Nat.add_comm 1] at hall
      simpa [hnumber] using hall
    · have hidle := h.tick_not_due (t := t) (by omega) hdue
      have hup : UpToDate total interval begun made t :=
        ⟨by omega, fun hmore => by rw [not_and] at hdue; exact Nat.not_le.1 (hdue hmore)⟩
      simpa [hidle] using ih h hup hforward.of_cons hgaps.tail

/-- Ticks no closer than the interval make one request each. -/
theorem OnTheWay.one_each {now : Nat} (h : c.OnTheWay total interval begun made)
    (hnow : begun + made * interval ≤ now)
    (hgaps : (now :: ts).IsChain fun s t => s + interval ≤ t) :
    (c.intermediates ts).length = min ts.length (total - 2 - made) := by
  induction ts generalizing c made now with
  | nil => simp
  | cons t ts ih =>
    have hgap := hgaps.rel
    have hreached : begun + (made + 1) * interval ≤ t := by rw [Nat.succ_mul]; omega
    by_cases hmore : made < total - 2
    · obtain ⟨hnumber, hnext⟩ := h.tick_due hmore hreached
      have hlater := ih hnext hreached hgaps.tail
      simp only [intermediates_cons, hnumber, Option.toList_some, List.singleton_append,
        List.length_cons, hlater]
      omega
    · have hidle := h.tick_not_due (t := t) (by omega) fun hdue => hmore hdue.1
      have hlater := ih h (by omega) hgaps.tail
      simp only [intermediates_cons, hidle, Option.toList_none, List.nil_append, hlater,
        List.length_cons]
      omega

/-! ## A move -/

section Move

variable (hnew : c.next = 1) (htotal : 2 < c.total)

include hnew htotal in
theorem ticked_onTheWay (hts : ∀ t ∈ ts, begun ≤ t) :
    ((c.start begun).2.ticked ts).OnTheWay c.total c.interval begun
        ((c.start begun).2.intermediates ts).length ∧
      (c.start begun).2.intermediates ts =
        List.range' 2 ((c.start begun).2.intermediates ts).length := by
  simpa using (onTheWay_of_start hnew htotal begun).2.ticked hts

include hnew htotal in
theorem ticked_upToDate (hinterval : 0 < c.interval) (hforward : (begun :: ts).Pairwise (· ≤ ·))
    (hgaps : (begun :: ts).IsChain fun s t => t ≤ s + c.interval) :
    UpToDate c.total c.interval begun ((c.start begun).2.intermediates ts).length
      (ts.getLastD begun) := by
  have hstart : UpToDate c.total c.interval begun 0 begun := ⟨by omega, fun _ => by omega⟩
  simpa using (onTheWay_of_start hnew htotal begun).2.upToDate hstart hforward hgaps

include hnew htotal in
/-- Ticks of a move that go no further apart than the interval make each request at the first of
them that is not before its due time. -/
theorem answer_eq_some_iff (hinterval : 0 < c.interval) {front back : List Nat}
    (hforward : (begun :: (front ++ t :: back)).Pairwise (· ≤ ·))
    (hgaps : (begun :: (front ++ t :: back)).IsChain fun s t => t ≤ s + c.interval) {k : Nat}
    (hpos : 0 < k) (hk : k ≤ c.total - 2) :
    (c.start begun).2.answer front t = some (k + 1) ↔
      begun + k * c.interval ≤ t ∧ ∀ s ∈ front, s < begun + k * c.interval := by
  rw [← List.cons_append] at hforward hgaps
  have hsorted := (List.pairwise_append.1 hforward).1
  have hbegun : ∀ s ∈ front, begun ≤ s := (List.pairwise_cons.1 hsorted).1
  have hlate : begun ≤ t := (List.pairwise_append.1 hforward).2.2 begun (by simp) t (by simp)
  have hway := (ticked_onTheWay hnew htotal hbegun).1
  have hup := ticked_upToDate hnew htotal hinterval hsorted hgaps.left_of_append
  have hgap := hgaps.rel_getLast_head_of_append (by simp) (by simp)
  have hlast : ∀ s ∈ begun :: front, s ≤ front.getLastD begun := by
    intro s hs
    have := hsorted.rel_getLast hs
    rwa [List.getLast_eq_getLastD] at this
  simp only [List.getLast_eq_getLastD, List.head_cons] at hgap
  rw [answer, hway.tick_eq hlate]
  generalize ((c.start begun).2.intermediates front).length = made at hup
  constructor
  · intro hmade
    by_cases hdue : made < c.total - 2 ∧ begun + (made + 1) * c.interval ≤ t
    · have hnumber : made + 1 = k := by simpa [hdue] using hmade
      rw [← hnumber]
      refine ⟨hdue.2, fun s hs => ?_⟩
      have := hlast s (List.mem_cons_of_mem _ hs)
      have := hup.notDue hdue.1
      omega
    · simp [hdue] at hmade
  · intro ⟨hdue, hfirst⟩
    have hbefore : front.getLastD begun < begun + k * c.interval := by
      have hk := Nat.mul_pos hpos hinterval
      have hmem : front.getLastD begun ∈ begun :: front := List.getLastD_mem_cons
      rcases List.mem_cons.1 hmem with h | h
      · omega
      · exact hfirst _ h
    have hnotYet : made < k := by
      have := hup.due
      exact Nat.lt_of_mul_lt_mul_right (a := c.interval) (by omega)
    have hnotDue := hup.notDue (by omega)
    have hnoMore : k < made + 2 := by
      refine Nat.lt_of_mul_lt_mul_right (a := c.interval) ?_
      rw [Nat.succ_mul (made + 1)]
      omega
    have hnumber : made + 1 = k := by omega
    rw [hnumber, if_pos ⟨by omega, hdue⟩]
    simp only [Option.some.injEq]
    omega

include hnew htotal in
/-- The numbers of a whole move are those of its start, its ticks and its end. -/
theorem numbers_move (hts : ∀ t ∈ ts, begun ≤ t) :
    c.numbers (.start begun :: ts.map .tick ++ [.finish]) =
      1 :: (c.start begun).2.intermediates ts ++ [c.total] := by
  have hstart := (onTheWay_of_start hnew htotal begun).1
  have hway := (ticked_onTheWay hnew htotal hts).1
  have hdue : ((c.start begun).2.ticked ts).dueAtEnd := by
    have hleft := hway.left
    simp only [dueAtEnd, hway.total_eq, hway.next_eq, decide_eq_true_eq]
    omega
  rw [List.cons_append, numbers_cons, numbers_append]
  simp only [heed, hstart, Option.toList_some, numbers_cons, numbers_nil, List.append_nil,
    List.cons_append]
  change 1 :: ((c.start begun).2.intermediates ts ++
    ((c.start begun).2.ticked ts).complete.1.toList) = _
  simp [complete, hdue, hway.total_eq]

end Move

/-- A tick makes a request on the way exactly if one is left that is due a whole number of intervals
after the start. So nothing drifts: if no two ticks are further apart than the interval, each
request is made at the first tick that is not before its due time, and none is missed if the ticks
go on until the last is due; and if no two are closer than the interval, each tick makes one request
for as long as one is left. -/
theorem ticks_punctual (hnew : c.next = 1) (htotal : 2 < c.total)
    (hforward : (begun :: ts).Pairwise (· ≤ ·)) :
    (∀ front t back, ts = front ++ t :: back → ∀ made,
      made = ((c.start begun).2.intermediates front).length →
        (c.start begun).2.answer front t =
          if made < c.total - 2 ∧ begun + (made + 1) * c.interval ≤ t then some (made + 2)
          else none) ∧
    (0 < c.interval → (begun :: ts).IsChain (fun s t => t ≤ s + c.interval) →
      (∀ k, 0 < k → k ≤ c.total - 2 → ∀ front t back, ts = front ++ t :: back →
        ((c.start begun).2.answer front t = some (k + 1) ↔
          begun + k * c.interval ≤ t ∧ ∀ s ∈ front, s < begun + k * c.interval)) ∧
      ∀ t, ts.getLast? = some t → begun + (c.total - 2) * c.interval ≤ t →
        c.numbers (.start begun :: ts.map .tick ++ [.finish]) = List.range' 1 c.total) ∧
    ((begun :: ts).IsChain (fun s t => s + c.interval ≤ t) → ∀ front, front <+: ts →
      (c.start begun).2.intermediates front = List.range' 2 (min front.length (c.total - 2))) := by
  have hbegun : ∀ t ∈ ts, begun ≤ t := (List.pairwise_cons.1 hforward).1
  refine ⟨?_, fun hinterval hgaps => ⟨?_, ?_⟩, ?_⟩
  · rintro front t back rfl made rfl
    have hfront : ∀ s ∈ front, begun ≤ s := fun s hs => hbegun s (List.mem_append_left _ hs)
    exact (ticked_onTheWay hnew htotal hfront).1.tick_eq (hbegun t (by simp))
  · rintro k hpos hk front t back rfl
    exact answer_eq_some_iff hnew htotal hinterval hforward hgaps hpos hk
  · intro t hlast hdue
    have hup := ticked_upToDate hnew htotal hinterval hforward hgaps
    obtain ⟨hway, hrange⟩ := ticked_onTheWay hnew htotal hbegun
    have hleft := hway.left
    rw [List.getLastD_eq_getLast?, hlast, Option.getD_some] at hup
    have hall : ((c.start begun).2.intermediates ts).length = c.total - 2 := by
      by_contra hne
      have hnotDue := hup.notDue (by omega)
      have := Nat.mul_le_mul_right c.interval
        (show ((c.start begun).2.intermediates ts).length + 1 ≤ c.total - 2 by omega)
      omega
    obtain ⟨n, hn⟩ : ∃ n, c.total = n + 2 := ⟨c.total - 2, by omega⟩
    rw [numbers_move hnew htotal hbegun, hrange, hall, hn, Nat.add_sub_cancel, List.range'_concat,
      List.range'_succ, Nat.one_mul, Nat.add_comm 1 (n + 1)]
  · rintro hgaps front ⟨back, rfl⟩
    have hfront : ∀ s ∈ front, begun ≤ s := fun s hs => hbegun s (List.mem_append_left _ hs)
    have hbefore : (begun :: front).IsChain fun s t => s + c.interval ≤ t := hgaps.left_of_append
    have hlength := (onTheWay_of_start hnew htotal begun).2.one_each (by omega) hbefore
    rw [(ticked_onTheWay hnew htotal hfront).2, hlength, Nat.sub_zero]

/-- Ticks that are close to each other, and ticks that are not, in a move of five samples. -/
theorem fiveSamples_punctual : ∃ c, ofPlan? 5 ⟨0, 100, 1000⟩ 1000 = some c ∧
    (c.start 50).2.answer [25049] 40000 = some 2 ∧
      c.numbers (.start 50 :: [25049, 40000, 50050, 75050].map .tick ++ [.finish]) =
        [1, 2, 3, 4, 5] ∧
      (c.start 50).2.intermediates [30050, 60050, 90050, 130000] = [2, 3, 4] := by
  have hmicros : (⟨0, 100, 1000⟩ : Plan).micros = 100000 := by decide +kernel
  have hmade : ofPlan? 5 ⟨0, 100, 1000⟩ 1000 = some ⟨5, 1, 25000, 1000, 0⟩ := by
    simp [ofPlan?, hmicros]
  have hnew : (⟨5, 1, 25000, 1000, 0⟩ : Cadence).next = 1 := rfl
  have hclose : [50, 25049, 40000, 50050, 75050].Pairwise (· ≤ ·) := by decide
  have hspread : [50, 30050, 60050, 90050, 130000].Pairwise (· ≤ ·) := by decide
  obtain ⟨_, hgaps, _⟩ := ticks_punctual hnew (by decide) hclose
  obtain ⟨hfirst, hall⟩ := hgaps (by decide) (by decide)
  obtain ⟨_, _, hone⟩ := ticks_punctual hnew (by decide) hspread
  refine ⟨_, hmade, ?_, hall _ rfl (by decide), hone (by decide) _ (List.prefix_refl _)⟩
  exact (hfirst 1 (by decide) (by decide) [25049] 40000 [50050, 75050] rfl).2 (by decide)

end Cadence

end LoadBench
