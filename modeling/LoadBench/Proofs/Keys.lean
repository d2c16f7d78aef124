import LoadBench.Command.Field

/-!
# Finding the keys of a line

Where no value holds a letter with which a key begins, each key is found where it was written: keys
that were found before cover the places inside them, and elsewhere none begins. Then each value is
found whole.
-/

namespace LoadBench

namespace Field

def initials : List Char := ['S', 'D', 'O', 'R', 'X', 'F', 'W', 'C']

def initial : Field → Char
  | .spi => 'S'
  | .dlc => 'D'
  | .olc => 'O'
  | .rlc => 'R'
  | .x => 'X'
  | .f => 'F'
  | .w => 'W'
  | .c => 'C'

theorem initial_mem (k : Field) : k.initial ∈ initials := by cases k <;> decide

theorem length_key_pos (k : Field) : 0 < k.key.length := List.length_pos_iff.2 k.key_ne_nil

theorem nodup_all : all.Nodup := by decide

/-- A key does not begin inside one that is looked for later. -/
theorem initial_not_mem_later : all.Pairwise fun j k => j.initial ∉ k.key := by decide

end Field

theorem Claim.start_lt_stop (p : Claim) : p.start < p.stop :=
  Nat.lt_add_of_pos_right p.field.length_key_pos

/-- A text in which no key begins. -/
def Keyless (text : List Char) : Prop := ∀ c ∈ text, c ∉ Field.initials

instance (text : List Char) : Decidable (Keyless text) :=
  decidable_of_iff (text.all fun c => !Field.initials.contains c) (by simp [Keyless])

theorem Keyless.append {v w : List Char} (hv : Keyless v) (hw : Keyless w) : Keyless (v ++ w) := by
  intro c hc
  rcases List.mem_append.1 hc with hc | hc
  · exact hv c hc
  · exact hw c hc

theorem Keyless.initial_not_mem {v : List Char} (h : Keyless v) (k : Field) : k.initial ∉ v :=
  fun hk => h _ hk k.initial_mem

/-! ## Keys and the values after them -/

abbrev Segments := List (Field × List Char)

namespace Segments

def chars (segs : Segments) : List Char := segs.flatMap fun s => s.1.key ++ s.2

/-- The places of the keys in a text that starts at `pos`. -/
def places : Nat → Segments → List Claim
  | _, [] => []
  | pos, (k, v) :: segs => ⟨k, pos⟩ :: places (pos + k.key.length + v.length) segs

theorem chars_cons (k : Field) (v : List Char) (segs : Segments) :
    chars ((k, v) :: segs) = k.key ++ (v ++ chars segs) := by
  rw [chars, List.flatMap_cons, List.append_assoc]
  rfl

theorem chars_append (a b : Segments) : chars (a ++ b) = chars a ++ chars b := List.flatMap_append

theorem places_append (pos : Nat) (a b : Segments) :
    places pos (a ++ b) = places pos a ++ places (pos + a.chars.length) b := by
  induction a generalizing pos with
  | nil => rfl
  | cons s a ih =>
    obtain ⟨k, v⟩ := s
    rw [List.cons_append, places, ih, places, chars_cons]
    simp [Nat.add_assoc]

theorem map_field_places (pos : Nat) (segs : Segments) :
    (places pos segs).map Claim.field = segs.map Prod.fst := by
  induction segs generalizing pos with
  | nil => rfl
  | cons s segs ih => rw [places, List.map_cons, ih, List.map_cons]

/-- Every place lies inside the segments it is of. -/
theorem within_of_mem_places {pos : Nat} {segs : Segments} {p : Claim} (h : p ∈ places pos segs) :
    pos ≤ p.start ∧ p.stop ≤ pos + segs.chars.length := by
  induction segs generalizing pos with
  | nil => cases h
  | cons s segs ih =>
    obtain ⟨k, v⟩ := s
    have hlength : (chars ((k, v) :: segs)).length =
        k.key.length + (v.length + (chars segs).length) := by simp [chars_cons]
    rw [hlength]
    rcases List.mem_cons.1 h with rfl | h
    · simp only [Claim.stop]
      omega
    · have hrest := ih h
      omega

/-- Two places of one text have different fields and do not meet. -/
def Apart (p q : Claim) : Prop := p.field ≠ q.field ∧ p.stop ≤ q.start

/-- The places of fields that are written once do not meet. -/
theorem pairwise_apart {segs : Segments} (h : (segs.map Prod.fst).Nodup) (pos : Nat) :
    (places pos segs).Pairwise Apart := by
  induction segs generalizing pos with
  | nil => exact .nil
  | cons s segs ih =>
    obtain ⟨k, v⟩ := s
    obtain ⟨hk, hsegs⟩ := List.nodup_cons.1 h
    refine List.pairwise_cons.2 ⟨fun q hq => ⟨?_, ?_⟩, ih hsegs _⟩
    · intro heq
      rw [← map_field_places (pos + k.key.length + v.length)] at hk
      exact hk (List.mem_map.2 ⟨q, hq, heq.symm⟩)
    · have hstart := (within_of_mem_places hq).1
      simp only [Claim.stop]
      omega

theorem eq_or_apart {segs : Segments} (h : (segs.map Prod.fst).Nodup) {pos : Nat} {p q : Claim}
    (hp : p ∈ places pos segs) (hq : q ∈ places pos segs) : p = q ∨ Apart p q ∨ Apart q p := by
  have hpairs : (places pos segs).Pairwise fun p q => p = q ∨ Apart p q ∨ Apart q p :=
    (pairwise_apart h pos).imp fun hapart => .inr (.inl hapart)
  have hflipped : (places pos segs).Pairwise (flip fun p q => p = q ∨ Apart p q ∨ Apart q p) :=
    (pairwise_apart h pos).imp fun hapart => .inr (.inr hapart)
  exact List.Pairwise.forall_of_forall_of_flip (fun _ _ => .inl rfl) hpairs hflipped hp hq

/-- A field has one place at most. -/
theorem eq_of_field_eq {segs : Segments} (h : (segs.map Prod.fst).Nodup) {pos : Nat} {p q : Claim}
    (hp : p ∈ places pos segs) (hq : q ∈ places pos segs) (hfield : p.field = q.field) : p = q := by
  rcases eq_or_apart h hp hq with heq | hapart | hapart
  · exact heq
  · exact absurd hfield hapart.1
  · exact absurd hfield.symm hapart.1

theorem not_meets {segs : Segments} (h : (segs.map Prod.fst).Nodup) {pos : Nat} {p q : Claim}
    (hp : p ∈ places pos segs) (hq : q ∈ places pos segs) (hfield : p.field ≠ q.field) :
    ¬ q.meets p.start p.stop := by
  intro hmeets
  simp only [Claim.meets, Bool.and_eq_true, decide_eq_true_eq] at hmeets
  rcases eq_or_apart h hp hq with rfl | hapart | hapart
  · exact hfield rfl
  · exact absurd hmeets.2 (Nat.not_lt.2 hapart.2)
  · exact absurd hmeets.1 (Nat.not_lt.2 hapart.2)

end Segments

/-! ## One key -/

section

variable {k : Field} {claims : List Claim} {pos : Nat}

/-- A text that has not the initial of a key is passed over. -/
theorem findFree_of_initial_not_mem {v : List Char} (h : k.initial ∉ v) (rest : List Char) :
    findFree k.key claims pos (v ++ rest) = findFree k.key claims (pos + v.length) rest := by
  induction v generalizing pos with
  | nil => rfl
  | cons c v ih =>
    obtain ⟨hc, hv⟩ := not_or.1 (mt List.mem_cons.2 h)
    have hprefix : k.key.isPrefixOf (c :: (v ++ rest)) = false := by
      cases k <;> simp_all [Field.key, Field.initial, List.isPrefixOf]
    rw [List.cons_append, findFree, hprefix, Bool.false_and, if_neg Bool.false_ne_true, ih hv,
      List.length_cons]
    congr 1
    omega

/-- A text that a claim covers is passed over. -/
theorem findFree_of_covered {q : Claim} (hq : q ∈ claims) {v : List Char} (hfrom : q.start ≤ pos)
    (hto : pos + v.length ≤ q.stop) (rest : List Char) :
    findFree k.key claims pos (v ++ rest) = findFree k.key claims (pos + v.length) rest := by
  induction v generalizing pos with
  | nil => rfl
  | cons c v ih =>
    rw [List.length_cons] at hto
    have hkey := k.length_key_pos
    have hmeets : q.meets pos (pos + k.key.length) := by
      simp only [Claim.meets, Bool.and_eq_true, decide_eq_true_eq]
      omega
    have hany : claims.any (·.meets pos (pos + k.key.length)) = true :=
      List.any_eq_true.2 ⟨q, hq, hmeets⟩
    rw [List.cons_append, findFree, hany, Bool.not_true, Bool.and_false,
      if_neg Bool.false_ne_true, ih (by omega) (by omega), List.length_cons]
    congr 1
    omega

theorem findFree_of_free (h : claims.any (·.meets pos (pos + k.key.length)) = false)
    (rest : List Char) : findFree k.key claims pos (k.key ++ rest) = some pos := by
  have hprefix : k.key.isPrefixOf (k.key ++ rest) := List.isPrefixOf_iff_prefix.2 ⟨rest, rfl⟩
  cases hkey : k.key ++ rest with
  | nil => exact absurd (List.append_eq_nil_iff.1 hkey).1 k.key_ne_nil
  | cons c cs =>
    rw [findFree, ← hkey, hprefix, h]
    rfl

/-- A key is found where it was written, if no claim meets it there and all keys that hold its
initial are claimed. -/
theorem findFree_chars {segs : Segments} (hkeyless : ∀ s ∈ segs, Keyless s.2)
    (hfree : ∀ p ∈ segs.places pos, p.field = k → claims.any (·.meets p.start p.stop) = false)
    (hclaimed : ∀ p ∈ segs.places pos, p.field ≠ k → k.initial ∈ p.field.key → p ∈ claims) :
    findFree k.key claims pos segs.chars =
      ((segs.places pos).find? (·.field = k)).map Claim.start := by
  induction segs generalizing pos with
  | nil => rfl
  | cons s segs ih =>
    obtain ⟨j, v⟩ := s
    have hv : Keyless v := hkeyless _ List.mem_cons_self
    rw [Segments.chars_cons, Segments.places]
    by_cases hj : j = k
    · subst hj
      rw [findFree_of_free (hfree _ List.mem_cons_self rfl), List.find?_cons_of_pos (by simp)]
      rfl
    · -- The letter `C` ends three other keys, and only a claim keeps it from being found there.
      have hkey : findFree k.key claims pos (j.key ++ (v ++ Segments.chars segs)) =
          findFree k.key claims (pos + j.key.length) (v ++ Segments.chars segs) := by
        by_cases hinitial : k.initial ∈ j.key
        · exact findFree_of_covered (hclaimed _ List.mem_cons_self hj hinitial) (Nat.le_refl _)
            (Nat.le_refl _) _
        · exact findFree_of_initial_not_mem hinitial _
      rw [hkey, findFree_of_initial_not_mem (hv.initial_not_mem k),
        List.find?_cons_of_neg (by simpa using hj)]
      exact ih (fun s hs => hkeyless s (List.mem_cons_of_mem _ hs))
        (fun p hp => hfree p (List.mem_cons_of_mem _ hp))
        (fun p hp => hclaimed p (List.mem_cons_of_mem _ hp))

end

/-! ## All keys -/

/-- The body of a line, taken apart at its keys. -/
structure Body where
  /-- What stands before the first key. -/
  lead : List Char
  segments : Segments
  keyless_lead : Keyless lead
  keyless_segments : ∀ s ∈ segments, Keyless s.2
  /-- Each key is written once. -/
  nodup : (segments.map Prod.fst).Nodup

namespace Body

def chars (b : Body) : List Char := b.lead ++ b.segments.chars

def places (b : Body) : List Claim := b.segments.places b.lead.length

def text (b : Body) : Fields := fun k => b.segments.lookup k

variable {b : Body}

/-- The keys of some of the fields are claimed where they were written. -/
def Claimed (b : Body) (done : List Field) (claims : List Claim) : Prop :=
  ∀ q, q ∈ claims ↔ q ∈ b.places ∧ q.field ∈ done

/-- The search for the next key finds its place among the segments. -/
theorem findFree_chars {claims : List Claim} {done rest : List Field} {k : Field}
    (hall : done ++ k :: rest = Field.all) (h : b.Claimed done claims) :
    findFree k.key claims 0 b.chars = (b.places.find? (·.field = k)).map Claim.start := by
  have hnodup : (done ++ k :: rest).Nodup := hall ▸ Field.nodup_all
  have hlater : (done ++ k :: rest).Pairwise fun i j => i.initial ∉ j.key :=
    hall ▸ Field.initial_not_mem_later
  rw [chars, findFree_of_initial_not_mem (b.keyless_lead.initial_not_mem k), Nat.zero_add]
  refine LoadBench.findFree_chars b.keyless_segments (fun p hp hpk => ?_)
    fun p hp hpk hinitial => ?_
  · refine List.any_eq_false.2 fun q hq => Segments.not_meets b.nodup hp ((h q).1 hq).1 ?_
    rw [hpk]
    exact fun hqk => (List.nodup_append.1 hnodup).2.2 _ ((h q).1 hq).2 _ List.mem_cons_self hqk.symm
  · -- A key that holds the initial of `k` is not looked for later, so it is claimed by now.
    have hmem : p.field ∈ done ++ k :: rest := hall ▸ p.field.mem_all
    rcases List.mem_append.1 hmem with hdone | hrest
    · exact (h p).2 ⟨hp, hdone⟩
    · rcases List.mem_cons.1 hrest with hk | hrest
      · exact absurd hk hpk
      · have hpairs := (List.pairwise_append.1 hlater).2.1
        exact absurd hinitial ((List.pairwise_cons.1 hpairs).1 _ hrest)

theorem Claimed.addClaim {claims : List Claim} {done rest : List Field} {k : Field}
    (h : b.Claimed done claims) (hall : done ++ k :: rest = Field.all) :
    b.Claimed (done ++ [k]) (addClaim b.chars claims k) := by
  intro q
  rw [LoadBench.addClaim, findFree_chars hall h]
  cases hfind : b.places.find? (·.field = k) with
  | none =>
    have hnone : q ∈ b.places → q.field ≠ k := by simpa using List.find?_eq_none.1 hfind q
    simp only [Option.map_none, h q, List.mem_append, List.mem_singleton]
    exact ⟨fun hq => ⟨hq.1, .inl hq.2⟩, fun hq => ⟨hq.1, hq.2.resolve_right (hnone hq.1)⟩⟩
  | some p =>
    have hp : p ∈ b.places := List.mem_of_find?_eq_some hfind
    have hpk : p.field = k := by simpa using List.find?_some hfind
    subst hpk
    simp only [Option.map_some, h q, List.mem_append, List.mem_singleton]
    constructor
    · rintro (hq | rfl)
      · exact ⟨hq.1, .inl hq.2⟩
      · exact ⟨hp, .inr rfl⟩
    · rintro ⟨hq, hdone | hfield⟩
      · exact .inl ⟨hq, hdone⟩
      · exact .inr (Segments.eq_of_field_eq b.nodup hq hp hfield)

theorem Claimed.foldl {claims : List Claim} {done rest : List Field} (h : b.Claimed done claims)
    (hall : done ++ rest = Field.all) :
    b.Claimed Field.all (rest.foldl (LoadBench.addClaim b.chars) claims) := by
  induction rest generalizing done claims with
  | nil =>
    rw [List.append_nil] at hall
    exact hall ▸ h
  | cons k rest ih => exact ih (h.addClaim hall) (by rw [List.append_assoc]; exact hall)

/-- All keys are claimed where they were written. -/
theorem mem_claimsIn (b : Body) (q : Claim) : q ∈ claimsIn b.chars ↔ q ∈ b.places := by
  have hnone : b.Claimed [] [] := fun q => by simp
  rw [claimsIn, hnone.foldl (List.nil_append Field.all) q]
  exact and_iff_left q.field.mem_all

theorem find?_claimsIn {p : Claim} (hp : p ∈ b.places) :
    (claimsIn b.chars).find? (·.field = p.field) = some p := by
  cases hfind : (claimsIn b.chars).find? (·.field = p.field) with
  | none =>
    have hnone := List.find?_eq_none.1 hfind p ((b.mem_claimsIn p).2 hp)
    simp at hnone
  | some q =>
    have hq : q ∈ b.places := (b.mem_claimsIn q).1 (List.mem_of_find?_eq_some hfind)
    have hfield : q.field = p.field := by simpa using List.find?_some hfind
    rw [Segments.eq_of_field_eq b.nodup hq hp hfield]

/-! ## All values -/

section

variable {front back : Segments} {k : Field} {v : List Char}

/-- The place of a key between others. -/
def placeAfter (b : Body) (front : Segments) (k : Field) : Claim :=
  ⟨k, b.lead.length + front.chars.length⟩

theorem places_split (h : b.segments = front ++ (k, v) :: back) :
    b.places = front.places b.lead.length ++ b.placeAfter front k ::
      back.places ((b.placeAfter front k).stop + v.length) := by
  rw [places, h, Segments.places_append]
  rfl

theorem chars_split (h : b.segments = front ++ (k, v) :: back) :
    b.chars = (b.lead ++ front.chars ++ k.key) ++ (v ++ back.chars) := by
  rw [chars, h, Segments.chars_append, Segments.chars_cons]
  simp

/-- Of all keys those after a value, and no others, begin where it might end. -/
theorem starts_after (h : b.segments = front ++ (k, v) :: back) (s : Nat) :
    s ∈ ((claimsIn b.chars).map Claim.start).filter ((b.placeAfter front k).stop ≤ ·) ↔
      ∃ q ∈ back.places ((b.placeAfter front k).stop + v.length), q.start = s := by
  rw [List.mem_filter, List.mem_map, decide_eq_true_eq]
  constructor
  · rintro ⟨⟨q, hq, rfl⟩, hle⟩
    rw [mem_claimsIn, places_split h, List.mem_append, List.mem_cons] at hq
    rcases hq with hq | rfl | hq
    · have hbefore : q.stop ≤ (b.placeAfter front k).start :=
        (Segments.within_of_mem_places hq).2
      have hq := q.start_lt_stop
      have hk := (b.placeAfter front k).start_lt_stop
      omega
    · exact absurd hle (Nat.not_le.2 (Claim.start_lt_stop _))
    · exact ⟨q, hq, rfl⟩
  · rintro ⟨q, hq, rfl⟩
    have hwithin := Segments.within_of_mem_places hq
    refine ⟨⟨q, ?_, rfl⟩, by omega⟩
    rw [mem_claimsIn, places_split h]
    simp [hq]

theorem length_chars (h : b.segments = front ++ (k, v) :: back) :
    b.chars.length = (b.placeAfter front k).stop + v.length + back.chars.length := by
  rw [chars_split h]
  simp [placeAfter, Claim.stop, Nat.add_assoc]

/-- A value ends where the next key begins, or with the body. -/
theorem valueEnd_placeAfter (h : b.segments = front ++ (k, v) :: back) :
    valueEnd (claimsIn b.chars) b.chars.length (b.placeAfter front k) =
      (b.placeAfter front k).stop + v.length := by
  have hstarts := starts_after h
  unfold valueEnd
  cases back with
  | nil =>
    have hnone : ((claimsIn b.chars).map Claim.start).filter
        ((b.placeAfter front k).stop ≤ ·) = [] := by
      refine List.eq_nil_iff_forall_not_mem.2 fun s hs => ?_
      obtain ⟨q, hq, _⟩ := (hstarts s).1 hs
      cases hq
    rw [hnone, length_chars h]
    rfl
  | cons s back =>
    obtain ⟨j, w⟩ := s
    have hmin : (((claimsIn b.chars).map Claim.start).filter
        ((b.placeAfter front k).stop ≤ ·)).min? =
          some ((b.placeAfter front k).stop + v.length) := by
      refine List.min?_eq_some_iff.2 ⟨(hstarts _).2 ⟨_, List.mem_cons_self, rfl⟩, fun s hs => ?_⟩
      obtain ⟨q, hq, rfl⟩ := (hstarts s).1 hs
      exact (Segments.within_of_mem_places hq).1
    rw [hmin]
    rfl

theorem valueOf_placeAfter (h : b.segments = front ++ (k, v) :: back) :
    valueOf b.chars (claimsIn b.chars) (b.placeAfter front k) = v := by
  have hstop : (b.placeAfter front k).stop = (b.lead ++ front.chars ++ k.key).length := by
    simp [placeAfter, Claim.stop, Nat.add_assoc]
  rw [valueOf, valueEnd_placeAfter h, Nat.add_sub_cancel_left, chars_split h, hstop,
    List.drop_left, List.take_left]

end

/-- The value of each field is the text after its key. -/
theorem ofBody_chars (b : Body) : Fields.ofBody b.chars = b.text := by
  funext k
  cases htext : b.text k with
  | some v =>
    obtain ⟨front, back, hsplit, _⟩ := List.lookup_eq_some_iff.1 htext
    have hplace : b.placeAfter front k ∈ b.places := by
      rw [places_split hsplit]
      simp
    have hfind : (claimsIn b.chars).find? (·.field = k) = some (b.placeAfter front k) :=
      find?_claimsIn hplace
    simp only [Fields.ofBody, hfind, Option.map_some, valueOf_placeAfter hsplit]
  | none =>
    have hfind : (claimsIn b.chars).find? (·.field = k) = none := by
      refine List.find?_eq_none.2 fun q hq hfield => ?_
      have hmem : q.field ∈ b.segments.map Prod.fst := by
        rw [← Segments.map_field_places b.lead.length]
        exact List.mem_map_of_mem ((b.mem_claimsIn q).1 hq)
      obtain ⟨s, hs, hsk⟩ := List.mem_map.1 hmem
      have hne : k ≠ s.1 := by simpa using List.lookup_eq_none_iff.1 htext s hs
      exact hne ((of_decide_eq_true hfield).symm.trans hsk.symm)
    simp only [Fields.ofBody, hfind, Option.map_none]

end Body

end LoadBench
