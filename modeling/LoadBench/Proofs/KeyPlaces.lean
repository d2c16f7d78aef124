import LoadBench.Proofs.Grammar
import Mathlib.Order.Bounds.Image

/-!
# Where keys are found

Where two keys share a place of a line, one of them is the letter `C` and ends the other. So each of
the other keys is found at the first place where it stands, whenever it is looked for, and only `C`
can be displaced: it is found at the first place where it does not end another key that was found.
That other key is found once only. A second `RLC` in a line is not protected, and its last letter is
read as a cycle count.
-/

namespace LoadBench

/-! ## Free places -/

/-- What a search for the first of some places finds. -/
def FirstOf (S : Set Nat) : Option Nat → Prop
  | none => S = ∅
  | some p => IsLeast S p

/-- A set has at most one first place. -/
theorem FirstOf.unique {S : Set Nat} {found found' : Option Nat} (h : FirstOf S found)
    (h' : FirstOf S found') : found = found' := by
  have hempty {p : Nat} : ¬ IsLeast ∅ p := fun hp => hp.1
  cases found with
  | none =>
    cases found' with
    | none => rfl
    | some p' => exact absurd (h ▸ h') hempty
  | some p =>
    cases found' with
    | none => exact absurd (h' ▸ h) hempty
    | some p' => rw [IsLeast.unique h h']

theorem FirstOf.image {S : Set Nat} {found : Option Nat} {f : Nat → Nat} (h : FirstOf S found)
    (hf : Monotone f) : FirstOf (f '' S) (found.map f) := by
  cases found with
  | none =>
    rw [show S = ∅ from h, Set.image_empty]
    rfl
  | some p => exact hf.map_isLeast h

/-- The places of a text at which a key stands and meets no claim. -/
def freePlaces {α : Type} (key : List α) (claims : List Claim) (body : List α) : Set Nat :=
  {i | key <+: body.drop i ∧ ∀ q ∈ claims, ¬ q.meets i (i + key.length)}

theorem inter_Ici_succ {S : Set Nat} {pos : Nat} (h : pos ∉ S) :
    S ∩ Set.Ici pos = S ∩ Set.Ici (pos + 1) := by
  ext i
  simp only [Set.mem_inter_iff, Set.mem_Ici]
  refine ⟨fun ⟨hi, hle⟩ => ⟨hi, ?_⟩, fun ⟨hi, hle⟩ => ⟨hi, by omega⟩⟩
  have hne : i ≠ pos := by
    rintro rfl
    exact h hi
  omega

section

variable {key : List Char} {claims : List Claim} {body : List Char}

/-- A search from some place on finds the first free place from there on. -/
theorem findFree_drop (hkey : key ≠ []) (claims : List Claim) (body : List Char) (pos : Nat) :
    FirstOf (freePlaces key claims body ∩ Set.Ici pos)
      (findFree key claims pos (body.drop pos)) := by
  generalize hrest : body.drop pos = rest
  induction rest generalizing pos with
  | nil =>
    refine Set.eq_empty_of_forall_notMem ?_
    rintro i ⟨⟨hstands, _⟩, hi⟩
    have hend : body.drop i = [] :=
      List.drop_eq_nil_of_le ((List.drop_eq_nil_iff.1 hrest).trans (Set.mem_Ici.1 hi))
    rw [hend] at hstands
    exact hkey (List.prefix_nil.1 hstands)
  | cons c rest ih =>
    have hnext : body.drop (pos + 1) = rest := by rw [← List.tail_drop, hrest, List.tail_cons]
    have hfree : (key.isPrefixOf (c :: rest) && !claims.any (·.meets pos (pos + key.length))) = true ↔
        pos ∈ freePlaces key claims body := by
      simp [freePlaces, hrest]
    rw [findFree]
    by_cases hpos : pos ∈ freePlaces key claims body
    · rw [if_pos (hfree.2 hpos)]
      exact ⟨⟨hpos, Set.mem_Ici.2 (Nat.le_refl _)⟩, fun i hi => hi.2⟩
    · rw [if_neg (mt hfree.1 hpos), inter_Ici_succ hpos]
      exact ih (pos + 1) hnext

theorem findFree_first (hkey : key ≠ []) (claims : List Claim) (body : List Char) :
    FirstOf (freePlaces key claims body) (findFree key claims 0 body) := by
  have hfirst := findFree_drop hkey claims body 0
  have hall : freePlaces key claims body ∩ Set.Ici 0 = freePlaces key claims body := by
    simp
  rwa [hall, List.drop_zero] at hfirst

/-- A field adds the least place that is free for its key, if there is one. -/
theorem mem_addClaim {k : Field} {q : Claim} : q ∈ addClaim body claims k ↔
    q ∈ claims ∨ q.field = k ∧ IsLeast (freePlaces k.key claims body) q.start := by
  have hfirst := findFree_first k.key_ne_nil claims body
  unfold addClaim
  cases h : findFree k.key claims 0 body with
  | none =>
    rw [h] at hfirst
    have hempty : ¬ IsLeast (freePlaces k.key claims body) q.start := by
      rw [show freePlaces k.key claims body = ∅ from hfirst]
      exact fun hq => hq.1
    simp [hempty]
  | some p =>
    have hleast : IsLeast (freePlaces k.key claims body) p := by rwa [h] at hfirst
    have hq : q = ⟨k, p⟩ ↔ q.field = k ∧ IsLeast (freePlaces k.key claims body) q.start := by
      constructor
      · rintro rfl
        exact ⟨rfl, hleast⟩
      · rintro ⟨rfl, hstart⟩
        rw [hleast.unique hstart]
    simp [hq]

end

/-! ## Places of keys -/

namespace Field

/-- The key stands at this place of a text. -/
def StandsAt (k : Field) (body : List Char) (pos : Nat) : Prop := k.key <+: body.drop pos

instance (k : Field) (body : List Char) (pos : Nat) : Decidable (k.StandsAt body pos) :=
  inferInstanceAs (Decidable (k.key <+: body.drop pos))

def endingInC : List Field := [.dlc, .olc, .rlc]

variable {j k : Field} {body : List Char} {pos start : Nat}

theorem StandsAt.getElem? (h : k.StandsAt body pos) {i : Nat} (hi : i < k.key.length) :
    body[pos + i]? = k.key[i]? := by
  obtain ⟨rest, hrest⟩ := h
  rw [← List.getElem?_drop, ← hrest, List.getElem?_append_left hi]

theorem StandsAt.lt_length (h : k.StandsAt body pos) : pos < body.length := by
  have hinitial := h.getElem? k.length_key_pos
  rw [Nat.add_zero, List.getElem?_eq_getElem k.length_key_pos] at hinitial
  exact (List.getElem?_eq_some_iff.1 hinitial).1

theorem StandsAt.stop_le (h : k.StandsAt body pos) : pos + k.key.length ≤ body.length := by
  have hlength := h.length_le
  have hinside := h.lt_length
  rw [List.length_drop] at hlength
  omega

theorem getElem?_zero_key (k : Field) : k.key[0]? = some k.initial := by cases k <;> rfl

/-- A key that begins inside another is the letter `C`, and ends it. -/
theorem initial_inside (hne : j ≠ k) {i : Nat} (hi : j.key[i]? = some k.initial) :
    k = .c ∧ j ∈ endingInC ∧ i + 1 = j.key.length := by
  have hlt : i < 3 := by
    have hlt := (List.getElem?_eq_some_iff.1 hi).1
    cases j <;> simp_all [key]
  have hcases : ∀ i < 3, j.key[i]? = some k.initial →
      k = .c ∧ j ∈ endingInC ∧ i + 1 = j.key.length := by
    cases j <;> cases k <;> first | exact absurd rfl hne | decide
  exact hcases i hlt hi

/-- A key that stands inside another, from its beginning on. -/
theorem StandsAt.inside (hj : j.StandsAt body start) (hk : k.StandsAt body pos) (hne : j ≠ k)
    (hle : start ≤ pos) (hlt : pos < start + j.key.length) :
    k = .c ∧ j ∈ endingInC ∧ pos + 1 = start + j.key.length := by
  have hinitial := hk.getElem? k.length_key_pos
  rw [Nat.add_zero, getElem?_zero_key] at hinitial
  have hinside := hj.getElem? (i := pos - start) (by omega)
  rw [show start + (pos - start) = pos by omega, hinitial] at hinside
  obtain ⟨hc, hending, hlast⟩ := initial_inside hne hinside.symm
  exact ⟨hc, hending, by omega⟩

/-- Where two keys share a place, the later one is the letter `C` and ends the other. -/
theorem StandsAt.of_meets (hj : j.StandsAt body start) (hk : k.StandsAt body pos) (hne : j ≠ k)
    (h : Claim.meets ⟨j, start⟩ pos (pos + k.key.length)) :
    (k = .c ∧ j ∈ endingInC ∧ pos + 1 = start + j.key.length) ∨
      (j = .c ∧ k ∈ endingInC ∧ start + 1 = pos + k.key.length) := by
  simp only [Claim.meets, Bool.and_eq_true, decide_eq_true_eq] at h
  rcases Nat.le_total start pos with hle | hle
  · exact .inl (hj.inside hk hne hle h.1)
  · exact .inr (hk.inside hj (Ne.symm hne) hle h.2)

end Field

/-- The letter at this place ends the first place of a longer key. -/
def EndsFirst (body : List Char) (pos : Nat) : Prop :=
  ∃ k ∈ Field.endingInC, ∃ start,
    IsLeast {i | k.StandsAt body i} start ∧ pos + 1 = start + k.key.length

/-- The places of a text where a key may be found: where it stands, and if it is the letter `C`,
where it does not end the first place of a longer key. -/
def Field.places (body : List Char) : Field → Set Nat
  | .c => {i | Field.c.StandsAt body i ∧ ¬ EndsFirst body i}
  | k => {i | k.StandsAt body i}

/-! ## Searches -/

/-- An order in which the keys may be looked for: each once, and the letter `C` after the longer
keys that it ends. -/
structure SearchOrder where
  fields : List Field
  perm : fields.Perm Field.all
  cycleLast : fields.Pairwise fun j k => j = .c → k ∉ Field.endingInC

namespace SearchOrder

def claimsIn (order : SearchOrder) (body : List Char) : List Claim :=
  order.fields.foldl (addClaim body) []

def fieldsOf (order : SearchOrder) (body : List Char) : Fields :=
  let claims := order.claimsIn body
  fun k => (claims.find? (·.field = k)).map (valueOf body claims)

def standard : SearchOrder := ⟨Field.all, .refl _, by decide⟩

end SearchOrder

section

variable {body : List Char} {claims : List Claim} {done rest : List Field} {k : Field}

/-- The keys of some of the fields are claimed where they may first be found. -/
def Located (body : List Char) (done : List Field) (claims : List Claim) : Prop :=
  ∀ q, q ∈ claims ↔ q.field ∈ done ∧ IsLeast (q.field.places body) q.start

theorem Field.places_of_ne (h : k ≠ .c) : k.places body = {i | k.StandsAt body i} := by
  cases k <;> first | rfl | exact absurd rfl h

theorem Field.standsAt_of_mem_places {pos : Nat} (h : pos ∈ k.places body) :
    k.StandsAt body pos := by
  cases k with
  | c => exact h.1
  | _ => exact h

/-- A claim meets the letter `C` where it ends the first place of a longer key. -/
theorem Located.cycle_free (h : Located body done claims) (hdone : ∀ j ∈ Field.endingInC, j ∈ done)
    (hc : .c ∉ done) {pos : Nat} (hpos : Field.c.StandsAt body pos) :
    (∀ q ∈ claims, ¬ q.meets pos (pos + Field.c.key.length)) ↔ ¬ EndsFirst body pos := by
  constructor
  · rintro hfree ⟨j, hj, start, hstart, hlast⟩
    have hne : j ≠ .c := by
      rintro rfl
      exact absurd hj (by decide)
    have hclaimed : ⟨j, start⟩ ∈ claims := (h _).2 ⟨hdone j hj, Field.places_of_ne hne ▸ hstart⟩
    refine hfree _ hclaimed ?_
    have hkey := j.length_key_pos
    have hone : Field.c.key.length = 1 := rfl
    simp only [Claim.meets, Bool.and_eq_true, decide_eq_true_eq]
    simp only [Claim.stop]
    omega
  · rintro hends q hq hmeets
    obtain ⟨hfield, hleast⟩ := (h q).1 hq
    have hne : q.field ≠ .c := fun heq => hc (heq ▸ hfield)
    rcases (Field.standsAt_of_mem_places hleast.1).of_meets hpos hne hmeets with
      ⟨_, hending, hlast⟩ | ⟨heq, _⟩
    · exact hends ⟨q.field, hending, q.start, Field.places_of_ne hne ▸ hleast, hlast⟩
    · exact hne heq

/-- The free places of a key are those where it may be found. -/
theorem Located.freePlaces_eq (h : Located body done claims) (hk : k ∉ done)
    (hlater : k = .c → ∀ j ∈ Field.endingInC, j ∈ done)
    (hearlier : .c ∈ done → k ∉ Field.endingInC) :
    freePlaces k.key claims body = k.places body := by
  ext pos
  by_cases hcycle : k = .c
  · subst hcycle
    exact and_congr_right (h.cycle_free (hlater rfl) hk)
  · rw [Field.places_of_ne hcycle]
    refine and_iff_left_of_imp fun hstands q hq hmeets => ?_
    obtain ⟨hfield, hleast⟩ := (h q).1 hq
    have hne : q.field ≠ k := fun heq => hk (heq ▸ hfield)
    rcases (Field.standsAt_of_mem_places hleast.1).of_meets hstands hne hmeets with
      ⟨heq, _⟩ | ⟨heq, hending, _⟩
    · exact hcycle heq
    · exact hearlier (heq ▸ hfield) hending

theorem Located.addClaim (h : Located body done claims) (hk : k ∉ done)
    (hlater : k = .c → ∀ j ∈ Field.endingInC, j ∈ done)
    (hearlier : .c ∈ done → k ∉ Field.endingInC) :
    Located body (done ++ [k]) (addClaim body claims k) := by
  intro q
  rw [mem_addClaim, h.freePlaces_eq hk hlater hearlier, h q, List.mem_append, List.mem_singleton,
    or_and_right]
  refine or_congr_right (and_congr_right ?_)
  rintro rfl
  rfl

end

namespace SearchOrder

variable {order : SearchOrder} {body : List Char}

theorem mem_fields (order : SearchOrder) (k : Field) : k ∈ order.fields :=
  order.perm.mem_iff.2 k.mem_all

/-- When the fields that are left have been searched for, all keys are claimed. -/
theorem located_foldl {claims : List Claim} {done rest : List Field}
    (hall : done ++ rest = order.fields) (h : Located body done claims) :
    Located body order.fields (rest.foldl (addClaim body) claims) := by
  induction rest generalizing done claims with
  | nil =>
    rw [List.append_nil] at hall
    exact hall ▸ h
  | cons k rest ih =>
    have hnodup : (done ++ k :: rest).Nodup := hall ▸ order.perm.nodup_iff.2 Field.nodup_all
    have hcycle := order.cycleLast
    rw [← hall] at hcycle
    obtain ⟨_, hfollowing, hcross⟩ := List.pairwise_append.1 hcycle
    have hk : k ∉ done := fun hmem =>
      (List.nodup_append.1 hnodup).2.2 k hmem k List.mem_cons_self rfl
    refine ih (by rw [List.append_assoc]; exact hall) (h.addClaim hk ?_ ?_)
    · rintro rfl j hj
      have hmem : j ∈ done ++ .c :: rest := hall ▸ order.mem_fields j
      rcases List.mem_append.1 hmem with hdone | hlater
      · exact hdone
      · rcases List.mem_cons.1 hlater with rfl | hrest
        · exact absurd hj (by decide)
        · exact absurd hj ((List.pairwise_cons.1 hfollowing).1 j hrest rfl)
    · exact fun hdone => hcross _ hdone k List.mem_cons_self rfl

/-- Each key is claimed at the first place where it may be found. -/
theorem mem_claimsIn (order : SearchOrder) (body : List Char) (q : Claim) :
    q ∈ order.claimsIn body ↔ IsLeast (q.field.places body) q.start := by
  have hnone : Located body [] [] := fun q => by simp
  rw [claimsIn, located_foldl (List.nil_append _) hnone q]
  exact and_iff_right (order.mem_fields q.field)

end SearchOrder

theorem map_field_foldl (body : List Char) (fields : List Field) (claims : List Claim) :
    ((fields.foldl (addClaim body) claims).map Claim.field).Sublist
      (claims.map Claim.field ++ fields) := by
  induction fields generalizing claims with
  | nil => simp
  | cons k fields ih =>
    refine (ih _).trans ?_
    unfold addClaim
    split
    · simp
    · exact (List.sublist_cons_self k fields).append_left _

/-! ## Results of searches -/

section

variable {claims claims' : List Claim} {p : Claim}

theorem find?_field (h : (claims.map Claim.field).Nodup) (hp : p ∈ claims) :
    claims.find? (·.field = p.field) = some p := by
  cases hfind : claims.find? (·.field = p.field) with
  | none =>
    have hnone := List.find?_eq_none.1 hfind p hp
    simp at hnone
  | some q =>
    have hfield : q.field = p.field := by simpa using List.find?_some hfind
    rw [List.inj_on_of_nodup_map h (List.mem_of_find?_eq_some hfind) hp hfield]

theorem find?_field_perm (h : (claims.map Claim.field).Nodup) (hperm : claims'.Perm claims)
    (k : Field) : claims'.find? (·.field = k) = claims.find? (·.field = k) := by
  cases hfind : claims.find? (·.field = k) with
  | none =>
    rw [List.find?_eq_none] at hfind ⊢
    exact fun q hq => hfind q (hperm.mem_iff.1 hq)
  | some q =>
    obtain rfl : q.field = k := by simpa using List.find?_some hfind
    exact find?_field ((hperm.map _).nodup_iff.2 h)
      (hperm.mem_iff.2 (List.mem_of_find?_eq_some hfind))

/-- Where a value ends does not depend on the order in which the claims were made. -/
theorem valueEnd_perm (hperm : claims'.Perm claims) (length : Nat) (k : Claim) :
    valueEnd claims' length k = valueEnd claims length k := by
  have hstarts := (hperm.map Claim.start).filter (k.stop ≤ ·)
  unfold valueEnd
  cases hmin : ((claims.map Claim.start).filter (k.stop ≤ ·)).min? with
  | none =>
    rw [List.min?_eq_none_iff] at hmin
    rw [hmin] at hstarts
    rw [hstarts.eq_nil]
    rfl
  | some s =>
    obtain ⟨hmem, hle⟩ := List.min?_eq_some_iff.1 hmin
    rw [List.min?_eq_some_iff.2 ⟨hstarts.mem_iff.2 hmem, fun t ht => hle t (hstarts.mem_iff.1 ht)⟩]

end

namespace SearchOrder

variable {order : SearchOrder} {body : List Char}

theorem nodup_claimsIn (order : SearchOrder) (body : List Char) :
    ((order.claimsIn body).map Claim.field).Nodup :=
  (map_field_foldl body order.fields []).nodup (order.perm.nodup_iff.2 Field.nodup_all)

/-- The claims are the same in every order. -/
theorem claimsIn_perm (order : SearchOrder) (body : List Char) :
    (order.claimsIn body).Perm (LoadBench.claimsIn body) := by
  refine (List.perm_ext_iff_of_nodup (order.nodup_claimsIn body).of_map
    (standard.nodup_claimsIn body).of_map).2 fun q => ?_
  rw [order.mem_claimsIn]
  exact (standard.mem_claimsIn body q).symm

/-- So are the values. -/
theorem fieldsOf_eq (order : SearchOrder) (body : List Char) :
    order.fieldsOf body = Fields.ofBody body := by
  have hperm := order.claimsIn_perm body
  have hvalue : valueOf body (order.claimsIn body) = valueOf body (LoadBench.claimsIn body) := by
    funext k
    rw [valueOf, valueEnd_perm hperm, valueOf]
  funext k
  simp only [fieldsOf, Fields.ofBody, hvalue, find?_field_perm (standard.nodup_claimsIn body) hperm]
  rfl

end SearchOrder

/-- A field has no text exactly when its key has no place. -/
theorem Fields.ofBody_eq_none_iff {body : List Char} {k : Field} :
    Fields.ofBody body k = none ↔ k.places body = ∅ := by
  have hclaims (pos : Nat) : ⟨k, pos⟩ ∈ claimsIn body ↔ IsLeast (k.places body) pos :=
    SearchOrder.standard.mem_claimsIn body ⟨k, pos⟩
  simp only [Fields.ofBody, Option.map_eq_none_iff, List.find?_eq_none, decide_eq_true_eq]
  constructor
  · intro h
    by_contra hplaces
    classical
    exact h _ ((hclaims _).2 (Set.nonempty_iff_ne_empty.2 hplaces).isLeast_natFind) rfl
  · rintro h ⟨j, pos⟩ hq rfl
    have hleast := (hclaims pos).1 hq
    rw [h] at hleast
    exact hleast.1

/-- Every key but the letter `C` is claimed at the first place where it stands, and the letter `C` at
the first place where it does not end the first place of a longer key. A field is absent if its key
has no such place. In whatever order the keys are looked for, as long as the letter `C` comes after
the longer keys, the claims and the values are the same. -/
theorem keys_located (body : List Char) :
    (∀ k ≠ Field.c, ∀ pos, ⟨k, pos⟩ ∈ claimsIn body ↔ IsLeast {i | k.StandsAt body i} pos) ∧
    (∀ pos, ⟨.c, pos⟩ ∈ claimsIn body ↔
      IsLeast {i | Field.c.StandsAt body i ∧ ¬ EndsFirst body i} pos) ∧
    (∀ k, Fields.ofBody body k = none ↔ k.places body = ∅) ∧
    ∀ order : SearchOrder,
      (order.claimsIn body).Perm (claimsIn body) ∧ order.fieldsOf body = Fields.ofBody body := by
  have hclaims := SearchOrder.standard.mem_claimsIn body
  refine ⟨fun k hk pos => ?_, fun pos => hclaims ⟨.c, pos⟩, fun _ => Fields.ofBody_eq_none_iff,
    fun order => ⟨order.claimsIn_perm body, order.fieldsOf_eq body⟩⟩
  rw [← Field.places_of_ne hk]
  exact hclaims ⟨k, pos⟩

def SearchOrder.backwards : SearchOrder where
  fields := [.w, .f, .x, .rlc, .olc, .dlc, .c, .spi]
  perm := by decide
  cycleLast := by decide

/-- A cycle count before the reference load, and another one in it. -/
theorem cycles_beside_reference_located :
    let body := [' ', 'C', '2', 'R', 'L', 'C', '1']
    Field.rlc ≠ .c ∧ IsLeast {i | Field.rlc.StandsAt body i} 3 ∧
      IsLeast {i | Field.c.StandsAt body i ∧ ¬ EndsFirst body i} 1 ∧
      SearchOrder.backwards.fieldsOf body .c = some ['2'] ∧ Fields.ofBody body .x = none := by
  intro body
  obtain ⟨hlonger, hcycle, _, horder⟩ := keys_located body
  refine ⟨by decide, (hlonger .rlc (by decide) 3).1 (by decide), (hcycle 1).1 (by decide), ?_,
    by decide⟩
  rw [(horder .backwards).2]
  decide

/-! ## Longer keys that are written twice -/

/-- The letter at this place ends a longer key. -/
def EndsLonger (body : List Char) (pos : Nat) : Prop :=
  ∃ k ∈ Field.endingInC, ∃ start, k.StandsAt body start ∧ pos + 1 = start + k.key.length

section

variable {body : List Char} {pos : Nat}

/-- Where no longer key is written twice, each is at its first place. -/
theorem EndsLonger.endsFirst (h : EndsLonger body pos)
    (honce : ∀ k ∈ Field.endingInC, {i | k.StandsAt body i}.Subsingleton) : EndsFirst body pos := by
  obtain ⟨k, hk, start, hstart, hlast⟩ := h
  exact ⟨k, hk, start, ⟨hstart, fun i hi => Nat.le_of_eq (honce k hk hstart hi)⟩, hlast⟩

theorem mem_claimsIn_cycle :
    ⟨.c, pos⟩ ∈ claimsIn body ↔ IsLeast (Field.c.places body) pos :=
  SearchOrder.standard.mem_claimsIn body ⟨.c, pos⟩

/-- A longer key that the cycle count is read from stands elsewhere before. -/
theorem exists_earlier_of_claimed (h : ⟨.c, pos⟩ ∈ claimsIn body) {k : Field}
    (hk : k ∈ Field.endingInC) {start : Nat} (hstart : k.StandsAt body start)
    (hlast : pos + 1 = start + k.key.length) : ∃ earlier < start, k.StandsAt body earlier := by
  by_contra hnone
  simp only [not_exists, not_and] at hnone
  refine (mem_claimsIn_cycle.1 h).1.2 ⟨k, hk, start, ⟨hstart, fun i hi => ?_⟩, hlast⟩
  exact Nat.le_of_not_lt fun hlt => hnone i hlt hi

theorem Fields.value_eq_absent_iff {fields : Fields} {k : Field} :
    fields.value k = .absent ↔ fields k = none := by
  have hvalue := fields.value_of k
  constructor
  · intro h
    rw [h] at hvalue
    exact hvalue
  · intro h
    rw [value, h]

/-- A replay lacks its cycle count if that field is absent, and only then. -/
theorem Command.replay_missing_iff {fields : Fields} :
    ofFields fields .replay = .error (.missingField [.c]) ↔ fields .c = none := by
  rw [ofFields_eq_error, ← Fields.value_eq_absent_iff]
  simp only [queries, Query.needed, List.findSome?_cons, List.findSome?_nil, Query.fault]
  cases fields.value .c <;> simp [LineError.ofValue]

theorem Command.replay_line_missing_iff {line : String}
    (hline : trim line.toList = Opcode.replay.name.toList ++ body) :
    ofLine line = .error (.missingField [.c]) ↔
      ∀ pos, Field.c.StandsAt body pos → EndsFirst body pos := by
  rw [ofLine, ofChars_of_name hline, replay_missing_iff, Fields.ofBody_eq_none_iff,
    Set.eq_empty_iff_forall_notMem]
  refine forall_congr' fun pos => ?_
  change ¬ (_ ∧ ¬ _) ↔ _
  rw [not_and_not_right]

end

/-- The cycle count is never read from the first place of a longer key, only from one that stands
elsewhere before; and a replay lacks it exactly if every letter `C` of the line ends the first place
of a longer key. So where no longer key is written twice, none is ever read for a cycle count. -/
theorem cycle_count_apart (body : List Char) :
    (∀ pos, ⟨.c, pos⟩ ∈ claimsIn body → ∀ k ∈ Field.endingInC, ∀ start, k.StandsAt body start →
      pos + 1 = start + k.key.length → ∃ earlier < start, k.StandsAt body earlier) ∧
    (∀ line : String, trim line.toList = Opcode.replay.name.toList ++ body →
      (Command.ofLine line = .error (.missingField [.c]) ↔
        ∀ pos, Field.c.StandsAt body pos → EndsFirst body pos)) ∧
    ((∀ k ∈ Field.endingInC, {i | k.StandsAt body i}.Subsingleton) →
      (∀ pos, ⟨.c, pos⟩ ∈ claimsIn body → ¬ EndsLonger body pos) ∧
      ∀ line : String, trim line.toList = Opcode.replay.name.toList ++ body →
        (∀ pos, Field.c.StandsAt body pos → EndsLonger body pos) →
          Command.ofLine line = .error (.missingField [.c])) := by
  refine ⟨fun pos h k hk start hstart hlast => exists_earlier_of_claimed h hk hstart hlast,
    fun line hline => Command.replay_line_missing_iff hline, fun honce => ⟨fun pos h hends => ?_, ?_⟩⟩
  · exact (mem_claimsIn_cycle.1 h).1.2 (hends.endsFirst honce)
  · intro line hline hends
    exact (Command.replay_line_missing_iff hline).2 fun pos hpos => (hends pos hpos).endsFirst honce

/-- A replay with a reference load and nothing else. -/
theorem reference_is_no_cycle_count :
    let body := [' ', 'R', 'L', 'C', '5']
    (∀ k ∈ Field.endingInC, {i | k.StandsAt body i}.Subsingleton) ∧
      (∀ pos, Field.c.StandsAt body pos → EndsLonger body pos) ∧
      Command.ofLine "G03 RLC5" = .error (.missingField [.c]) := by
  intro body
  have hplace : ∀ k ∈ Field.endingInC, ∀ i < 5, k.StandsAt body i → i = 1 := by decide
  have honce : ∀ k ∈ Field.endingInC, {i | k.StandsAt body i}.Subsingleton := fun k hk i hi j hj =>
    (hplace k hk i hi.lt_length hi).trans (hplace k hk j hj.lt_length hj).symm
  have hletter : ∀ pos < 5, Field.c.StandsAt body pos → pos = 3 := by decide
  have hends : ∀ pos, Field.c.StandsAt body pos → EndsLonger body pos := by
    intro pos hpos
    obtain rfl := hletter pos hpos.lt_length hpos
    exact ⟨.rlc, by decide, 1, by decide, rfl⟩
  obtain ⟨_, _, hapart⟩ := cycle_count_apart body
  exact ⟨honce, hends, (hapart honce).2 _ (by decide) hends⟩

/-- A reference load that is written twice is read for a cycle count the second time, though every
letter `C` of the line ends a longer key. -/
theorem repeated_reference_read_as_cycles :
    let body := [' ', 'R', 'L', 'C', '1', ' ', 'R', 'L', 'C', '2']
    (∀ pos, Field.c.StandsAt body pos → EndsLonger body pos) ∧ ⟨.c, 8⟩ ∈ claimsIn body ∧
      Command.ofLine "G03 RLC1 RLC2" = .ok (.replay 2) := by
  intro body
  have hletter : ∀ pos < 10, Field.c.StandsAt body pos → pos = 3 ∨ pos = 8 := by decide
  refine ⟨fun pos hpos => ?_, by decide, ?_⟩
  · rcases hletter pos hpos.lt_length hpos with rfl | rfl
    · exact ⟨.rlc, by decide, 1, by decide, rfl⟩
    · exact ⟨.rlc, by decide, 6, by decide, rfl⟩
  · have hline : trim "G03 RLC1 RLC2".toList = Opcode.replay.name.toList ++ body := by decide
    have htext : Fields.ofBody body .c = some ['2'] := by decide
    have hread : Single.read? (trim ['2']) = some 2 := by decide +kernel
    have hfinite : (2 : Single).isFinite := by decide +kernel
    have hvalue : (Fields.ofBody body).value .c = .number 2 := by
      simp only [Fields.value, htext, FieldValue.ofText, hread, hfinite, if_true]
    rw [Command.ofLine, Command.ofChars_of_name hline]
    exact Command.ofFields_eq_ok.2 ⟨rfl, 2, hvalue, by decide +kernel⟩

end LoadBench
