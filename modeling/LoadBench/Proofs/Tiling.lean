import LoadBench.Proofs.KeyPlaces
import Mathlib.Data.List.Sort

/-!
# Fields tile a line

The keys found in a line share no place, and each value ends where the next key begins. So a line is
the text before its first key, and then keys and values without a gap: each character belongs to one
of them and to no other.
-/

namespace LoadBench

variable {body : List Char} {p q : Claim}

/-! ## Keys apart -/

theorem leastPlace_of_mem_claimsIn (h : p ∈ claimsIn body) :
    IsLeast (p.field.places body) p.start :=
  (SearchOrder.standard.mem_claimsIn body p).1 h

theorem standsAt_of_mem_claimsIn (h : p ∈ claimsIn body) : p.field.StandsAt body p.start :=
  Field.standsAt_of_mem_places (leastPlace_of_mem_claimsIn h).1

/-- The letter `C` is not found at the end of a longer key that is found. -/
theorem start_add_one_ne_stop (hp : p ∈ claimsIn body) (hlonger : p.field ∈ Field.endingInC)
    (hq : q ∈ claimsIn body) (hc : q.field = .c) : q.start + 1 ≠ p.stop := by
  intro hlast
  have hleast := leastPlace_of_mem_claimsIn hp
  have hne : p.field ≠ .c := by
    intro heq
    rw [heq] at hlonger
    exact absurd hlonger (by decide)
  rw [Field.places_of_ne hne] at hleast
  have hplace := (leastPlace_of_mem_claimsIn hq).1
  rw [hc] at hplace
  exact hplace.2 ⟨p.field, hlonger, p.start, hleast, hlast⟩

/-- Two keys that are found share no place. -/
theorem apart_of_mem_claimsIn (hp : p ∈ claimsIn body) (hq : q ∈ claimsIn body) (hne : p ≠ q) :
    p.stop ≤ q.start ∨ q.stop ≤ p.start := by
  have hfields : p.field ≠ q.field := fun heq =>
    hne (List.inj_on_of_nodup_map (SearchOrder.standard.nodup_claimsIn body) hp hq heq)
  by_contra hmeet
  have hmeets : p.meets q.start (q.start + q.field.key.length) := by
    simp only [Claim.meets, Bool.and_eq_true, decide_eq_true_eq]
    simp only [Claim.stop] at hmeet ⊢
    omega
  rcases (standsAt_of_mem_claimsIn hp).of_meets (standsAt_of_mem_claimsIn hq) hfields hmeets with
    ⟨hc, hlonger, hlast⟩ | ⟨hc, hlonger, hlast⟩
  · exact start_add_one_ne_stop hp hlonger hq hc hlast
  · exact start_add_one_ne_stop hq hlonger hp hc hlast

theorem pairwise_apart_claimsIn (body : List Char) :
    (claimsIn body).Pairwise fun p q => p.stop ≤ q.start ∨ q.stop ≤ p.start := by
  have hnodup : (claimsIn body).Nodup := (SearchOrder.standard.nodup_claimsIn body).of_map
  exact hnodup.imp_of_mem fun hp hq hne => apart_of_mem_claimsIn hp hq hne

/-! ## Keys in the order of the line -/

/-- The keys found in the body of a line, in the order in which they stand. -/
def standingClaims (body : List Char) : List Claim :=
  (claimsIn body).mergeSort fun p q => p.start ≤ q.start

theorem standingClaims_perm (body : List Char) : (standingClaims body).Perm (claimsIn body) :=
  List.mergeSort_perm _ _

/-- In the order of their places each claim ends before the next begins. -/
theorem pairwise_standingClaims (body : List Char) :
    (standingClaims body).Pairwise fun p q => p.stop ≤ q.start := by
  have hsorted : (standingClaims body).Pairwise fun p q => p.start ≤ q.start := by
    have htrans : ∀ a b c : Claim, decide (a.start ≤ b.start) → decide (b.start ≤ c.start) →
        decide (a.start ≤ c.start) := by
      simp only [decide_eq_true_eq]
      exact fun a b c => Nat.le_trans
    have htotal : ∀ a b : Claim, decide (a.start ≤ b.start) || decide (b.start ≤ a.start) := by
      simp only [Bool.or_eq_true, decide_eq_true_eq]
      exact fun a b => Nat.le_total _ _
    exact (List.pairwise_mergeSort htrans htotal (claimsIn body)).imp of_decide_eq_true
  have hapart : (standingClaims body).Pairwise fun p q => p.stop ≤ q.start ∨ q.stop ≤ p.start :=
    (standingClaims_perm body).symm.pairwise (pairwise_apart_claimsIn body) Or.symm
  refine (hsorted.and hapart).imp fun {p q} h => h.2.resolve_right fun hbefore => ?_
  have hq := q.start_lt_stop
  have hstarts := h.1
  omega

def nextStart (length : Nat) : List Claim → Nat
  | [] => length
  | p :: _ => p.start

section

variable {front rest : List Claim}

theorem mem_claimsIn_of_split (h : standingClaims body = front ++ p :: rest) : p ∈ claimsIn body := by
  rw [← (standingClaims_perm body).mem_iff, h]
  simp

theorem stop_le_nextStart (h : standingClaims body = front ++ p :: rest) :
    p.stop ≤ nextStart body.length rest := by
  have hpairs := pairwise_standingClaims body
  rw [h] at hpairs
  obtain ⟨hafter, _⟩ := List.pairwise_cons.1 (List.pairwise_append.1 hpairs).2.1
  cases rest with
  | nil => exact (standsAt_of_mem_claimsIn (mem_claimsIn_of_split h)).stop_le
  | cons q rest => exact hafter q List.mem_cons_self

theorem nextStart_le_length (h : standingClaims body = front ++ rest) :
    nextStart body.length rest ≤ body.length := by
  cases rest with
  | nil => exact Nat.le_refl _
  | cons q rest => exact (standsAt_of_mem_claimsIn (mem_claimsIn_of_split h)).lt_length.le

/-- A value ends where the next key begins, or with the line. -/
theorem valueEnd_standing (h : standingClaims body = front ++ p :: rest) (length : Nat) :
    valueEnd (claimsIn body) length p = nextStart length rest := by
  have hpairs := pairwise_standingClaims body
  rw [h] at hpairs
  obtain ⟨_, hfrom, hbefore⟩ := List.pairwise_append.1 hpairs
  obtain ⟨hafter, hrest⟩ := List.pairwise_cons.1 hfrom
  have hp := p.start_lt_stop
  -- The keys before this one begin too early to end its value, and all after it begin late enough.
  have hstarts : ((standingClaims body).map Claim.start).filter (p.stop ≤ ·) =
      rest.map Claim.start := by
    rw [h, List.map_append, List.filter_append, List.map_cons, List.filter_cons_of_neg (by simpa)]
    have hnone : (front.map Claim.start).filter (p.stop ≤ ·) = [] := by
      simp only [List.filter_eq_nil_iff, List.forall_mem_map, decide_eq_true_eq]
      intro q hq
      have hstop := hbefore q hq p List.mem_cons_self
      have hq := q.start_lt_stop
      omega
    have hall : (rest.map Claim.start).filter (p.stop ≤ ·) = rest.map Claim.start := by
      simpa only [List.filter_eq_self, List.forall_mem_map, decide_eq_true_eq] using hafter
    rw [hnone, hall, List.nil_append]
  have hsorted : (rest.map Claim.start).Pairwise fun a b => min a b = a := by
    refine List.pairwise_map.2 (hrest.imp fun {a b} hab => ?_)
    have ha := a.start_lt_stop
    omega
  rw [← valueEnd_perm (standingClaims_perm body), valueEnd, hstarts, List.min?_eq_head? hsorted]
  cases rest <;> rfl

/-! ## Keys and values -/

def segmentsOf (body : List Char) (claims : List Claim) : Segments :=
  claims.map fun p => (p.field, valueOf body (claimsIn body) p)

theorem segmentsOf_cons (p : Claim) (rest : List Claim) :
    segmentsOf body (p :: rest) =
      (p.field, valueOf body (claimsIn body) p) :: segmentsOf body rest := rfl

theorem drop_start (h : p ∈ claimsIn body) : body.drop p.start = p.field.key ++ body.drop p.stop := by
  obtain ⟨after, hafter⟩ := standsAt_of_mem_claimsIn h
  rw [Claim.stop, ← List.drop_drop, ← hafter, List.drop_left]

/-- After a key stands its value, and then the next key. -/
theorem drop_stop (h : standingClaims body = front ++ p :: rest) :
    body.drop p.stop =
      valueOf body (claimsIn body) p ++ body.drop (nextStart body.length rest) := by
  rw [valueOf, valueEnd_standing h]
  conv_lhs => rw [← List.take_append_drop (nextStart body.length rest - p.stop) (body.drop p.stop)]
  rw [List.drop_drop, Nat.add_sub_cancel' (stop_le_nextStart h)]

theorem stop_add_length_value (h : standingClaims body = front ++ p :: rest) :
    p.stop + (valueOf body (claimsIn body) p).length = nextStart body.length rest := by
  have hstop := stop_le_nextStart h
  have hnext := nextStart_le_length (h.trans (List.append_cons front p rest))
  rw [valueOf, valueEnd_standing h, List.length_take, List.length_drop]
  omega

/-- From any key on, a line is keys and values, and the keys stand where they were found. -/
theorem segmentsOf_suffix (h : standingClaims body = front ++ rest) :
    body.drop (nextStart body.length rest) = (segmentsOf body rest).chars ∧
      (segmentsOf body rest).places (nextStart body.length rest) = rest := by
  induction rest generalizing front with
  | nil => exact ⟨List.drop_length, rfl⟩
  | cons p rest ih =>
    obtain ⟨hchars, hplaces⟩ := ih (h.trans (List.append_cons front p rest))
    rw [segmentsOf_cons]
    constructor
    · rw [nextStart, drop_start (mem_claimsIn_of_split h), drop_stop h, hchars, Segments.chars_cons]
    · have hnext := stop_add_length_value h
      rw [nextStart, Segments.places, ← Claim.stop, hnext, hplaces]

end

theorem lookup_map {α : Type} (l : List α) (f : α → Field) (g : α → List Char) (k : Field) :
    (l.map fun a => (f a, g a)).lookup k = (l.find? (f · = k)).map g := by
  induction l with
  | nil => rfl
  | cons a l ih =>
    by_cases ha : f a = k
    · rw [List.map_cons, List.find?_cons_of_pos (by simpa using ha), List.lookup_cons, ha,
        beq_self_eq_true]
      rfl
    · rw [List.map_cons, List.find?_cons_of_neg (by simpa using ha), List.lookup_cons, ih,
        beq_false_of_ne (Ne.symm ha)]

/-- A line as the text before its first key, and keys with their values. -/
structure Tiled (body lead : List Char) (segs : Segments) : Prop where
  chars : body = lead ++ segs.chars
  places : (segs.places lead.length).Perm (claimsIn body)
  fields : Fields.ofBody body = fun k => segs.lookup k

/-- The claims and their texts, one after the other, are all of the body. -/
theorem tiled_standing (body : List Char) :
    Tiled body (body.take (nextStart body.length (standingClaims body)))
      (segmentsOf body (standingClaims body)) := by
  have hall : standingClaims body = [] ++ standingClaims body := rfl
  obtain ⟨hchars, hplaces⟩ := segmentsOf_suffix hall
  refine ⟨?_, ?_, ?_⟩
  · rw [← hchars, List.take_append_drop]
  · rw [List.length_take, Nat.min_eq_left (nextStart_le_length hall), hplaces]
    exact standingClaims_perm body
  · funext k
    rw [segmentsOf, lookup_map, find?_field_perm (SearchOrder.standard.nodup_claimsIn body)
      (standingClaims_perm body)]
    rfl

end LoadBench
