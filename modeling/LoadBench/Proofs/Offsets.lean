import LoadBench.Proofs.Tiling

/-!
# Reading a line by byte offsets

A line can also be read in its UTF-8 bytes. Keys are looked for among the bytes, and values are
slices between two byte offsets, which must be in order, inside the text and between characters. A
byte of a key ends no other character, so a key stands at an offset only if it stands there among
the characters. Each slice exists for that reason, and the result is that of the characters.
-/

namespace LoadBench

def utf8 (text : List Char) : List UInt8 := text.flatMap String.utf8EncodeChar

inductive SliceError where
  | outOfRange (start stop size : Nat)
  | insideCharacter (offset : Nat)

def slice (start stop : Nat) (text : List Char) : Except SliceError (List Char) :=
  if stop < start ∨ byteSize text < stop then
    .error (.outOfRange start stop (byteSize text))
  else
    match splitBytes? start text with
    | none => .error (.insideCharacter start)
    | some (_, rest) =>
      match splitBytes? (stop - start) rest with
      | none => .error (.insideCharacter stop)
      | some (text, _) => .ok text

def bytesFrom (start : Nat) (bytes : List UInt8) : Except SliceError (List UInt8) :=
  if bytes.length < start then .error (.outOfRange start bytes.length bytes.length)
  else .ok (bytes.drop start)

namespace Offsets

/-- The first offset, from `start` on, at which a key stands. -/
def find (key bytes : List UInt8) (start : Nat) : Except SliceError (Option Nat) :=
  if bytes.length ≤ start then .ok none
  else do
    let rest ← bytesFrom start bytes
    let found := (List.range rest.length).find? fun i => key.isPrefixOf (rest.drop i)
    return found.map (start + ·)

theorem lt_length_of_find {key bytes : List UInt8} {start pos : Nat}
    (h : find key bytes start = .ok (some pos)) : start ≤ pos ∧ pos < bytes.length := by
  unfold find bytesFrom at h
  split at h
  · cases h
  · rw [if_neg (by omega)] at h
    obtain ⟨i, hi, rfl⟩ := Option.map_eq_some_iff.1 (Except.ok.inj h)
    have hrange := List.mem_range.1 (List.mem_of_find?_eq_some hi)
    rw [List.length_drop] at hrange
    omega

/-- The first offset, from `start` on, at which a key stands and meets no claim. -/
def findFree (key : List UInt8) (claims : List Claim) (bytes : List UInt8) (start : Nat) :
    Except SliceError (Option Nat) :=
  match h : find key bytes start with
  | .error e => .error e
  | .ok none => .ok none
  | .ok (some pos) =>
    if claims.any (·.meets pos (pos + key.length)) then findFree key claims bytes (pos + 1)
    else .ok (some pos)
termination_by bytes.length - start
decreasing_by
  have hpos := lt_length_of_find h
  omega

def addClaim (bytes : List UInt8) (claims : List Claim) (k : Field) :
    Except SliceError (List Claim) := do
  match ← findFree (utf8 k.key) claims bytes 0 with
  | some pos => return claims ++ [⟨k, pos⟩]
  | none => return claims

def claimsIn (bytes : List UInt8) : Except SliceError (List Claim) :=
  Field.all.foldlM (addClaim bytes) []

def segment (body : List Char) (claims : List Claim) (k : Claim) :
    Except SliceError (Field × List Char) := do
  let text ← slice k.stop (valueEnd claims (byteSize body) k) body
  return (k.field, text)

def fieldsOf (body : List Char) : Except SliceError Fields := do
  let claims ← claimsIn (utf8 body)
  let segs ← claims.mapM (segment body claims)
  return fun k => segs.lookup k

def ofLine (line : String) : Except SliceError (Except LineError Command) :=
  let line := trim line.toList
  match slice 0 3 line with
  | .error _ => .ok (.error (.ofOpcode line))
  | .ok front => do
    let fields ← fieldsOf (← slice 3 (byteSize line) line)
    match Opcode.read? front with
    | none => return .error (.ofOpcode front)
    | some opcode => return Command.ofFields fields opcode

end Offsets

/-! ## Slices -/

section

variable {start stop : Nat} {text middle : List Char}

theorem byteSize_append (cs ds : List Char) : byteSize (cs ++ ds) = byteSize cs + byteSize ds := by
  induction cs with
  | nil => simp [byteSize]
  | cons c cs ih => rw [List.cons_append, byteSize_cons, ih, byteSize_cons, Nat.add_assoc]

/-- A slice is what stands between a front and a rest of the text of these sizes. -/
theorem slice_eq_ok : slice start stop text = .ok middle ↔
    ∃ front rest, text = front ++ (middle ++ rest) ∧ byteSize front = start ∧
      byteSize front + byteSize middle = stop := by
  unfold slice
  constructor
  · intro h
    split at h
    · cases h
    next hrange =>
    split at h
    · cases h
    next front rest hfront =>
    split at h
    · cases h
    next middle' rest' hmiddle =>
    obtain rfl : middle' = middle := Except.ok.inj h
    obtain ⟨rfl, hstart⟩ := splitBytes?_eq_some.1 hfront
    obtain ⟨rfl, hstop⟩ := splitBytes?_eq_some.1 hmiddle
    exact ⟨front, rest', rfl, hstart, by omega⟩
  · rintro ⟨front, rest, rfl, rfl, rfl⟩
    have hsize : byteSize (front ++ (middle ++ rest)) =
        byteSize front + (byteSize middle + byteSize rest) := by
      rw [byteSize_append, byteSize_append]
    have hfront : splitBytes? (byteSize front) (front ++ (middle ++ rest)) =
        some (front, middle ++ rest) := splitBytes?_eq_some.2 ⟨rfl, rfl⟩
    have hmiddle : splitBytes? (byteSize middle) (middle ++ rest) = some (middle, rest) :=
      splitBytes?_eq_some.2 ⟨rfl, rfl⟩
    rw [if_neg (by omega), hfront, Nat.add_sub_cancel_left]
    simp only [hmiddle]

end

/-! ## Offsets of characters -/

def offsetOf (body : List Char) (i : Nat) : Nat := byteSize (body.take i)

section

variable {body : List Char} {i j : Nat}

theorem offsetOf_length (body : List Char) : offsetOf body body.length = byteSize body := by
  rw [offsetOf, List.take_length]

theorem offsetOf_cons_succ (c : Char) (body : List Char) (i : Nat) :
    offsetOf (c :: body) (i + 1) = c.utf8Size + offsetOf body i := rfl

/-- The text between two places is as long as their offsets are apart. -/
theorem offsetOf_add (body : List Char) (i n : Nat) :
    offsetOf body (i + n) = offsetOf body i + byteSize ((body.drop i).take n) := by
  rw [offsetOf, List.take_add, byteSize_append, offsetOf]

theorem offsetOf_mono (body : List Char) : Monotone (offsetOf body) := by
  intro i j hij
  obtain ⟨n, rfl⟩ := Nat.exists_eq_add_of_le hij
  rw [offsetOf_add]
  exact Nat.le_add_right _ _

theorem offsetOf_lt (hij : i < j) (hi : i < body.length) : offsetOf body i < offsetOf body j := by
  obtain ⟨n, rfl⟩ := Nat.exists_eq_add_of_le' hij
  have hnext : offsetOf body i < offsetOf body (i + 1) := by
    rw [offsetOf_add, List.drop_eq_getElem_cons hi]
    have hsize := (body[i]).utf8Size_pos
    simp only [List.take_succ_cons, List.take_zero, byteSize, List.foldr_cons, List.foldr_nil]
    omega
  exact Nat.lt_of_lt_of_le hnext (offsetOf_mono body (by omega))

theorem offsetOf_lt_iff (hi : i ≤ body.length) (hj : j ≤ body.length) :
    offsetOf body i < offsetOf body j ↔ i < j := by
  constructor
  · intro h
    by_contra hle
    exact absurd h (Nat.not_lt.2 (offsetOf_mono body (Nat.not_lt.1 hle)))
  · exact fun hij => offsetOf_lt hij (by omega)

theorem offsetOf_le_iff (hi : i ≤ body.length) (hj : j ≤ body.length) :
    offsetOf body i ≤ offsetOf body j ↔ i ≤ j := by
  rw [← Nat.not_lt, offsetOf_lt_iff hj hi, Nat.not_lt]

/-- The slice between the offsets of two places is the text between them. -/
theorem slice_offsetOf (hij : i ≤ j) :
    slice (offsetOf body i) (offsetOf body j) body = .ok ((body.drop i).take (j - i)) := by
  obtain ⟨n, rfl⟩ := Nat.exists_eq_add_of_le hij
  rw [Nat.add_sub_cancel_left]
  exact slice_eq_ok.2 ⟨body.take i, (body.drop i).drop n,
    by rw [List.take_append_drop, List.take_append_drop], rfl, (offsetOf_add body i n).symm⟩

end

/-! ## Keys among the bytes -/

section

variable {c d : Char} {key body : List Char}

theorem utf8_cons (c : Char) (text : List Char) :
    utf8 (c :: text) = String.utf8EncodeChar c ++ utf8 text := rfl

theorem length_utf8 (text : List Char) : (utf8 text).length = byteSize text := by
  induction text with
  | nil => rfl
  | cons c text ih =>
    rw [utf8_cons, List.length_append, String.length_utf8EncodeChar, ih, byteSize_cons]

theorem val_le_of_utf8Size_eq_one (h : c.utf8Size = 1) : c.val.toNat ≤ 127 :=
  UInt32.le_iff_toNat_le.1 (Char.utf8Size_eq_one_iff.1 h)

theorem le_or_of_le {a b : UInt8} (h : a ≤ b) (x : UInt8) : a ≤ x ||| b := by
  rw [UInt8.le_iff_toNat_le] at h ⊢
  rw [UInt8.toNat_or]
  exact h.trans Nat.right_le_or

/-- A character of several bytes has none below 128. -/
theorem le_of_mem_utf8EncodeChar {b : UInt8} (hd : d.utf8Size ≠ 1)
    (h : b ∈ String.utf8EncodeChar d) : 0x80 ≤ b := by
  rcases d.utf8Size_eq with hone | htwo | hthree | hfour
  · exact absurd hone hd
  · rw [String.utf8EncodeChar_eq_cons_cons htwo] at h
    simp only [List.mem_cons, List.not_mem_nil, or_false] at h
    rcases h with rfl | rfl <;> exact le_or_of_le (by decide) _
  · rw [String.utf8EncodeChar_eq_cons_cons_cons hthree] at h
    simp only [List.mem_cons, List.not_mem_nil, or_false] at h
    rcases h with rfl | rfl | rfl <;> exact le_or_of_le (by decide) _
  · rw [String.utf8EncodeChar_eq_cons_cons_cons_cons hfour] at h
    simp only [List.mem_cons, List.not_mem_nil, or_false] at h
    rcases h with rfl | rfl | rfl | rfl <;> exact le_or_of_le (by decide) _

/-- The byte of a character that has only one stands in no other character. -/
theorem eq_of_byte_mem (hc : c.utf8Size = 1) (h : c.val.toUInt8 ∈ String.utf8EncodeChar d) :
    d = c := by
  have hcval := val_le_of_utf8Size_eq_one hc
  by_cases hd : d.utf8Size = 1
  · rw [String.utf8EncodeChar_eq_singleton hd, List.mem_singleton] at h
    have hdval := val_le_of_utf8Size_eq_one hd
    have heq := congrArg UInt8.toNat h
    rw [UInt32.toNat_toUInt8, UInt32.toNat_toUInt8] at heq
    refine Char.ext (UInt32.toNat.inj ?_)
    omega
  · have hlarge := UInt8.le_iff_toNat_le.1 (le_of_mem_utf8EncodeChar hd h)
    rw [UInt32.toNat_toUInt8] at hlarge
    have hbound : (0x80 : UInt8).toNat = 128 := rfl
    omega

/-- Characters of one byte. -/
def OneByte (text : List Char) : Prop := ∀ c ∈ text, c.utf8Size = 1

theorem Field.oneByte_key (k : Field) : OneByte k.key := by
  cases k <;> simp [OneByte, key, Char.utf8Size]

theorem OneByte.byteSize_eq (h : OneByte key) : byteSize key = key.length := by
  induction key with
  | nil => rfl
  | cons c key ih =>
    rw [byteSize_cons, h c List.mem_cons_self, ih fun d hd => h d (List.mem_cons_of_mem c hd),
      List.length_cons, Nat.add_comm]

theorem OneByte.utf8_cons (h : OneByte (c :: key)) :
    utf8 (c :: key) = c.val.toUInt8 :: utf8 key := by
  rw [LoadBench.utf8_cons, String.utf8EncodeChar_eq_singleton (h c List.mem_cons_self)]
  rfl

/-- A character in which such a byte stands is the character of that byte. -/
theorem eq_of_first_byte (hc : c.utf8Size = 1) {o : Nat} (ho : o < d.utf8Size) {bytes : List UInt8}
    (h : c.val.toUInt8 :: bytes <+: (utf8 (d :: body)).drop o) : d = c := by
  have hlength : o < (String.utf8EncodeChar d).length := by rwa [String.length_utf8EncodeChar]
  rw [utf8_cons, List.drop_append_of_le_length hlength.le, List.drop_eq_getElem_cons hlength,
    List.cons_append, List.cons_prefix_cons] at h
  exact eq_of_byte_mem hc (h.1 ▸ List.getElem_mem hlength)

/-- The bytes of a text begin with those of a key if the text begins with the key. -/
theorem OneByte.prefix_utf8_iff (h : OneByte key) : utf8 key <+: utf8 body ↔ key <+: body := by
  induction key generalizing body with
  | nil => simp [utf8]
  | cons c key ih =>
    have hc := h c List.mem_cons_self
    have hkey : OneByte key := fun e he => h e (List.mem_cons_of_mem c he)
    rw [h.utf8_cons]
    cases body with
    | nil => simp [utf8]
    | cons d body =>
      by_cases hd : c = d
      · subst hd
        rw [LoadBench.utf8_cons, String.utf8EncodeChar_eq_singleton hc, List.singleton_append,
          List.cons_prefix_cons, ih hkey, List.cons_prefix_cons]
        exact and_congr_left fun _ => iff_of_true rfl rfl
      · refine iff_of_false (fun hprefix => ?_) fun hprefix => hd (List.cons_prefix_cons.1 hprefix).1
        exact hd (eq_of_first_byte hc d.utf8Size_pos hprefix).symm

/-- The bytes of a key stand at an offset if it is the offset of a place at which the key stands. -/
theorem OneByte.prefix_drop_iff (h : OneByte key) (hkey : key ≠ []) {o : Nat} :
    utf8 key <+: (utf8 body).drop o ↔ ∃ i, offsetOf body i = o ∧ key <+: body.drop i := by
  obtain ⟨c, key, rfl⟩ := List.exists_cons_of_ne_nil hkey
  have hc := h c List.mem_cons_self
  induction body generalizing o with
  | nil => simp [utf8, String.utf8EncodeChar_ne_nil]
  | cons d body ih =>
    by_cases ho : o < d.utf8Size
    · -- Inside the first character a key can only stand at its beginning.
      constructor
      · intro hprefix
        rw [h.utf8_cons] at hprefix
        obtain rfl : d = c := eq_of_first_byte hc ho hprefix
        obtain rfl : o = 0 := by omega
        rw [← h.utf8_cons] at hprefix
        exact ⟨0, rfl, h.prefix_utf8_iff.1 hprefix⟩
      · rintro ⟨i, rfl, hprefix⟩
        cases i with
        | zero => exact h.prefix_utf8_iff.2 hprefix
        | succ i =>
          rw [offsetOf_cons_succ] at ho
          omega
    · obtain ⟨o, rfl⟩ := Nat.exists_eq_add_of_le (Nat.not_lt.1 ho)
      have hdrop : (utf8 (d :: body)).drop (d.utf8Size + o) = (utf8 body).drop o := by
        rw [LoadBench.utf8_cons, ← String.length_utf8EncodeChar, List.drop_length_add_append]
      rw [hdrop]
      refine ih.trans ?_
      constructor
      · rintro ⟨i, rfl, hprefix⟩
        exact ⟨i + 1, offsetOf_cons_succ d body i, hprefix⟩
      · rintro ⟨i, hi, hprefix⟩
        cases i with
        | zero =>
          have hsize := d.utf8Size_pos
          simp only [offsetOf, List.take_zero, byteSize, List.foldr_nil] at hi
          omega
        | succ i =>
          rw [offsetOf_cons_succ] at hi
          exact ⟨i, by omega, hprefix⟩

end

/-! ## Searches among the bytes -/

namespace Offsets

section

variable {key bytes : List UInt8}

/-- The slices that are searched are in range, and the first hit is the least place. -/
theorem find_first (hkey : key ≠ []) (bytes : List UInt8) (start : Nat) :
    ∃ found, find key bytes start = .ok found ∧
      FirstOf ({o | key <+: bytes.drop o} ∩ Set.Ici start) found := by
  have hinside : ∀ o, key <+: bytes.drop o → o < bytes.length := by
    intro o hstands
    by_contra hout
    rw [List.drop_eq_nil_of_le (Nat.not_lt.1 hout)] at hstands
    exact hkey (List.prefix_nil.1 hstands)
  unfold find
  split
  next hend =>
    refine ⟨none, rfl, Set.eq_empty_of_forall_notMem ?_⟩
    rintro o ⟨hstands, hstart⟩
    have ho := hinside o hstands
    have hstart := Set.mem_Ici.1 hstart
    omega
  next hstart =>
    have hrest : bytesFrom start bytes = .ok (bytes.drop start) := if_neg (by omega)
    have hstands (i : Nat) : key.isPrefixOf ((bytes.drop start).drop i) = true ↔
        key <+: bytes.drop (start + i) := by
      rw [List.isPrefixOf_iff_prefix, List.drop_drop]
    have hmissed {i : Nat} (h : (!key.isPrefixOf ((bytes.drop start).drop i)) = true) :
        ¬ key <+: bytes.drop (start + i) := by
      rw [← hstands, Bool.not_eq_true, ← Bool.not_eq_true']
      exact h
    refine ⟨_, by rw [hrest]; rfl, ?_⟩
    cases hfind : (List.range (bytes.drop start).length).find?
        fun i => key.isPrefixOf ((bytes.drop start).drop i) with
    | none =>
      refine Set.eq_empty_of_forall_notMem ?_
      rintro o ⟨ho, hle⟩
      obtain ⟨i, rfl⟩ := Nat.exists_eq_add_of_le (Set.mem_Ici.1 hle)
      have hi : i < (bytes.drop start).length := by
        have hend := hinside _ ho
        rw [List.length_drop]
        omega
      exact hmissed (List.find?_range_eq_none.1 hfind i hi) ho
    | some i =>
      obtain ⟨hi, _, hbefore⟩ := List.find?_range_eq_some.1 hfind
      refine ⟨⟨(hstands i).1 hi, Set.mem_Ici.2 (Nat.le_add_right _ _)⟩, ?_⟩
      rintro o ⟨ho, hle⟩
      obtain ⟨j, rfl⟩ := Nat.exists_eq_add_of_le (Set.mem_Ici.1 hle)
      exact Nat.add_le_add_left (Nat.le_of_not_lt fun hlt => hmissed (hbefore j hlt) ho) start

/-- A hit that meets a claim is passed over, and the search goes on at the next byte. -/
theorem findFree_first (hkey : key ≠ []) (claims : List Claim) (bytes : List UInt8) (start : Nat) :
    ∃ found, findFree key claims bytes start = .ok found ∧
      FirstOf (freePlaces key claims bytes ∩ Set.Ici start) found := by
  obtain ⟨found, hfound, hfirst⟩ := find_first hkey bytes start
  fun_induction findFree key claims bytes start generalizing found with
  | case1 start e h =>
    rw [h] at hfound
    cases hfound
  | case2 start h =>
    rw [h] at hfound
    cases hfound
    refine ⟨none, rfl, Set.eq_empty_of_forall_notMem fun o ho => ?_⟩
    have hempty : _ = ∅ := hfirst
    exact hempty.subset ⟨ho.1.1, ho.2⟩
  | case3 start pos h hmeets ih =>
    rw [h] at hfound
    cases hfound
    -- The key stands nowhere between `start` and this offset, at which it is not free.
    have hfrom : freePlaces key claims bytes ∩ Set.Ici start =
        freePlaces key claims bytes ∩ Set.Ici pos := by
      ext o
      exact and_congr_right fun ho =>
        ⟨fun hle => hfirst.2 ⟨ho.1, hle⟩, fun hle => Set.mem_Ici.2 (le_trans hfirst.1.2 hle)⟩
    have hnot : pos ∉ freePlaces key claims bytes := by
      rintro ⟨_, hfree⟩
      obtain ⟨q, hq, hmeet⟩ := List.any_eq_true.1 hmeets
      exact hfree q hq hmeet
    rw [hfrom, inter_Ici_succ hnot]
    obtain ⟨found, hfound, hfirst⟩ := find_first hkey bytes (pos + 1)
    exact ih found hfound hfirst
  | case4 start pos h hfree =>
    rw [h] at hfound
    cases hfound
    refine ⟨some pos, rfl, ⟨⟨hfirst.1.1, ?_⟩, hfirst.1.2⟩, fun o ho => ?_⟩
    · simpa using hfree
    · exact hfirst.2 ⟨ho.1.1, ho.2⟩

end

end Offsets

def Claim.inBytes (body : List Char) (q : Claim) : Claim := ⟨q.field, offsetOf body q.start⟩

section

variable {body : List Char} {claims : List Claim} {p q : Claim}

/-- The keys of some claims stand where they are claimed. -/
def Standing (body : List Char) (claims : List Claim) : Prop :=
  ∀ q ∈ claims, q.field.StandsAt body q.start

theorem length_utf8_key (k : Field) : (utf8 k.key).length = k.key.length := by
  rw [length_utf8, k.oneByte_key.byteSize_eq]

theorem utf8_key_ne_nil (k : Field) : utf8 k.key ≠ [] := by
  rw [← List.length_pos_iff, length_utf8_key]
  exact k.length_key_pos

theorem Field.StandsAt.stop_inBytes (h : q.field.StandsAt body q.start) :
    (q.inBytes body).stop = offsetOf body q.stop := by
  obtain ⟨rest, hrest⟩ := h
  rw [Claim.stop, Claim.stop, offsetOf_add, ← hrest, List.take_left, q.field.oneByte_key.byteSize_eq]
  rfl

/-- Two keys share a byte if they share a character. -/
theorem meets_inBytes (hp : p.field.StandsAt body p.start) (hq : q.field.StandsAt body q.start) :
    (q.inBytes body).meets (p.inBytes body).start (p.inBytes body).stop ↔
      q.meets p.start p.stop := by
  simp only [Claim.meets, Bool.and_eq_true, decide_eq_true_eq, hp.stop_inBytes, hq.stop_inBytes]
  exact and_congr (offsetOf_lt_iff hp.lt_length.le hq.stop_le)
    (offsetOf_lt_iff hq.lt_length.le hp.stop_le)

/-- The free offsets of a key are those of its free places. -/
theorem freePlaces_utf8 (h : Standing body claims) (k : Field) :
    freePlaces (utf8 k.key) (claims.map (·.inBytes body)) (utf8 body) =
      offsetOf body '' freePlaces k.key claims body := by
  have hmeets {i : Nat} (hi : k.StandsAt body i) {q : Claim} (hq : q ∈ claims) :
      (q.inBytes body).meets (offsetOf body i) (offsetOf body i + (utf8 k.key).length) ↔
        q.meets i (i + k.key.length) := by
    rw [length_utf8_key]
    exact meets_inBytes (p := ⟨k, i⟩) hi (h q hq)
  ext o
  simp only [freePlaces, Set.mem_ofPred_eq, Set.mem_image, List.forall_mem_map,
    k.oneByte_key.prefix_drop_iff k.key_ne_nil]
  constructor
  · rintro ⟨⟨i, rfl, hi⟩, hfree⟩
    exact ⟨i, ⟨hi, fun q hq => mt (hmeets hi hq).2 (hfree q hq)⟩, rfl⟩
  · rintro ⟨i, ⟨hi, hfree⟩, rfl⟩
    exact ⟨⟨i, rfl, hi⟩, fun q hq => mt (hmeets hi hq).1 (hfree q hq)⟩

theorem findFree_utf8 (h : Standing body claims) (k : Field) :
    Offsets.findFree (utf8 k.key) (claims.map (·.inBytes body)) (utf8 body) 0 =
      .ok ((findFree k.key claims 0 body).map (offsetOf body)) := by
  obtain ⟨found, hfound, hfirst⟩ := Offsets.findFree_first (utf8_key_ne_nil k)
    (claims.map (·.inBytes body)) (utf8 body) 0
  rw [freePlaces_utf8 h, show Set.Ici 0 = Set.univ from Set.Ici_bot, Set.inter_univ] at hfirst
  have himage := (findFree_first k.key_ne_nil claims body).image (offsetOf_mono body)
  rw [hfound, hfirst.unique himage]

theorem addClaim_utf8 (h : Standing body claims) (k : Field) :
    Offsets.addClaim (utf8 body) (claims.map (·.inBytes body)) k =
      .ok ((addClaim body claims k).map (·.inBytes body)) := by
  unfold Offsets.addClaim addClaim
  rw [findFree_utf8 h]
  cases findFree k.key claims 0 body with
  | none => rfl
  | some pos =>
    rw [List.map_append]
    rfl

theorem Standing.addClaim (h : Standing body claims) (k : Field) :
    Standing body (addClaim body claims k) := by
  intro q hq
  rcases mem_addClaim.1 hq with hq | ⟨rfl, hleast⟩
  · exact h q hq
  · exact hleast.1.1

theorem foldlM_addClaim_utf8 (h : Standing body claims) (fields : List Field) :
    fields.foldlM (Offsets.addClaim (utf8 body)) (claims.map (·.inBytes body)) =
      .ok ((fields.foldl (addClaim body) claims).map (·.inBytes body)) := by
  induction fields generalizing claims with
  | nil => rfl
  | cons k fields ih =>
    rw [List.foldlM_cons, addClaim_utf8 h]
    exact ih (h.addClaim k)

/-- The keys found among the bytes are those found among the characters. -/
theorem claimsIn_utf8 (body : List Char) :
    Offsets.claimsIn (utf8 body) = .ok ((claimsIn body).map (·.inBytes body)) := by
  have hnone : Standing body [] := nofun
  exact foldlM_addClaim_utf8 hnone Field.all

end

/-! ## Values between the offsets -/

theorem min?_map_of_monotone {f : Nat → Nat} (hf : Monotone f) (l : List Nat) :
    (l.map f).min? = l.min?.map f := by
  cases hmin : l.min? with
  | none => rw [List.min?_eq_none_iff.1 hmin]; rfl
  | some m =>
    obtain ⟨hmem, hle⟩ := List.min?_eq_some_iff.1 hmin
    refine List.min?_eq_some_iff.2 ⟨List.mem_map_of_mem hmem, ?_⟩
    rintro _ hb
    obtain ⟨a, ha, rfl⟩ := List.mem_map.1 hb
    exact hf (hle a ha)

section

variable {body : List Char} {p : Claim}

/-- In bytes a value ends at the offset of the character at which it ends. -/
theorem valueEnd_inBytes (hp : p ∈ claimsIn body) :
    valueEnd ((claimsIn body).map (·.inBytes body)) (byteSize body) (p.inBytes body) =
      offsetOf body (valueEnd (claimsIn body) body.length p) := by
  have hstands := standsAt_of_mem_claimsIn hp
  have hstarts : (((claimsIn body).map (·.inBytes body)).map Claim.start).filter
      ((p.inBytes body).stop ≤ ·) =
        (((claimsIn body).map Claim.start).filter (p.stop ≤ ·)).map (offsetOf body) := by
    rw [List.map_map, List.filter_map, List.filter_map, List.map_map]
    refine congrArg (List.map _) (List.filter_congr fun q hq => decide_eq_decide.2 ?_)
    rw [hstands.stop_inBytes]
    exact offsetOf_le_iff hstands.stop_le (standsAt_of_mem_claimsIn hq).lt_length.le
  rw [valueEnd, hstarts, min?_map_of_monotone (offsetOf_mono body), valueEnd, ← offsetOf_length]
  cases (((claimsIn body).map Claim.start).filter (p.stop ≤ ·)).min? <;> rfl

theorem stop_le_valueEnd (claims : List Claim) {length : Nat} (h : p.stop ≤ length) :
    p.stop ≤ valueEnd claims length p := by
  unfold valueEnd
  cases hmin : ((claims.map Claim.start).filter (p.stop ≤ ·)).min? with
  | none => exact h
  | some m => exact of_decide_eq_true (List.mem_filter.1 (List.min?_eq_some_iff.1 hmin).1).2

theorem segment_inBytes (hp : p ∈ claimsIn body) :
    Offsets.segment body ((claimsIn body).map (·.inBytes body)) (p.inBytes body) =
      .ok (p.field, valueOf body (claimsIn body) p) := by
  have hstands := standsAt_of_mem_claimsIn hp
  rw [Offsets.segment, hstands.stop_inBytes, valueEnd_inBytes hp,
    slice_offsetOf (stop_le_valueEnd _ hstands.stop_le)]
  rfl

theorem mapM_eq_ok {α β ε : Type} {f : α → Except ε β} {g : α → β} {l : List α}
    (h : ∀ a ∈ l, f a = .ok (g a)) : l.mapM f = .ok (l.map g) := by
  induction l with
  | nil => rfl
  | cons a l ih =>
    rw [List.mapM_cons, h a List.mem_cons_self, ih fun b hb => h b (List.mem_cons_of_mem a hb)]
    rfl

/-- The values between the offsets are those between the places. -/
theorem fieldsOf_eq (body : List Char) : Offsets.fieldsOf body = .ok (Fields.ofBody body) := by
  have hsegments : ((claimsIn body).map (·.inBytes body)).mapM
      (Offsets.segment body ((claimsIn body).map (·.inBytes body))) =
        .ok (segmentsOf body (claimsIn body)) := by
    rw [List.mapM_map]
    exact mapM_eq_ok fun p hp => segment_inBytes hp
  have hfields : (fun k => (segmentsOf body (claimsIn body)).lookup k) = Fields.ofBody body := by
    funext k
    rw [segmentsOf, lookup_map]
    rfl
  exact except_bind_eq_ok.2 ⟨_, claimsIn_utf8 body,
    except_bind_eq_ok.2 ⟨_, hsegments, congrArg Except.ok hfields⟩⟩

end

/-! ## Lines -/

/-- The opcode is cut off where the first three bytes end a character. -/
theorem slice_opcode (line : List Char) :
    (∃ e, slice 0 3 line = .error e) ∧ splitBytes? 3 line = none ∨
      ∃ front body, slice 0 3 line = .ok front ∧ slice 3 (byteSize line) line = .ok body ∧
        splitBytes? 3 line = some (front, body) := by
  cases hsplit : splitBytes? 3 line with
  | none =>
    refine .inl ⟨?_, rfl⟩
    cases hslice : slice 0 3 line with
    | error e => exact ⟨e, rfl⟩
    | ok front =>
      obtain ⟨before, rest, rfl, hbefore, hsize⟩ := slice_eq_ok.1 hslice
      have hsome : splitBytes? 3 (before ++ (front ++ rest)) = some (before ++ front, rest) :=
        splitBytes?_eq_some.2 ⟨(List.append_assoc _ _ _).symm, by rw [byteSize_append, hsize]⟩
      rw [hsome] at hsplit
      cases hsplit
  | some parts =>
    obtain ⟨front, body⟩ := parts
    obtain ⟨rfl, hsize⟩ := splitBytes?_eq_some.1 hsplit
    have hfront : slice 0 3 (front ++ body) = .ok front :=
      slice_eq_ok.2 ⟨[], body, rfl, rfl, by rw [hsize]; rfl⟩
    have hbody : slice 3 (byteSize (front ++ body)) (front ++ body) = .ok body :=
      slice_eq_ok.2 ⟨front, [], by rw [List.append_nil], hsize, (byteSize_append front body).symm⟩
    exact .inr ⟨front, body, hfront, hbody, rfl⟩

/-- Reading a line by byte offsets takes no slice that does not exist. -/
theorem ofLine_eq (line : String) : Offsets.ofLine line = .ok (Command.ofLine line) := by
  unfold Offsets.ofLine Command.ofLine Command.ofChars
  rcases slice_opcode (trim line.toList) with ⟨⟨e, hslice⟩, hsplit⟩ | ⟨front, body, hfront, hbody, hsplit⟩
  · simp only [hslice, hsplit]
  · simp only [hfront, hbody, hsplit]
    refine except_bind_eq_ok.2 ⟨_, rfl, except_bind_eq_ok.2 ⟨_, fieldsOf_eq body, ?_⟩⟩
    cases Opcode.read? front <;> rfl

/-- The fields of a line tile it: no two keys share a character or a byte, the line is the text before
its first key and then keys and values without a gap, and these values are its fields. Read by byte
offsets it has the same keys and values, and no slice that is taken leaves the text or cuts a
character, so reading fails for no line. -/
theorem fields_tile (body : List Char) :
    (∃ lead segs, Tiled body lead segs) ∧
    ((claimsIn body).Pairwise fun p q => p.stop ≤ q.start ∨ q.stop ≤ p.start) ∧
    (∃ claims, Offsets.claimsIn (utf8 body) = .ok claims ∧
      claims = (claimsIn body).map (·.inBytes body) ∧
      claims.Pairwise fun p q => p.stop ≤ q.start ∨ q.stop ≤ p.start) ∧
    Offsets.fieldsOf body = .ok (Fields.ofBody body) ∧
    ∀ line : String, Offsets.ofLine line = .ok (Command.ofLine line) := by
  have hbytes : ((claimsIn body).map (·.inBytes body)).Pairwise
      fun p q => p.stop ≤ q.start ∨ q.stop ≤ p.start := by
    refine List.pairwise_map.2 ((pairwise_apart_claimsIn body).imp_of_mem fun hp hq hapart => ?_)
    have hp := standsAt_of_mem_claimsIn hp
    have hq := standsAt_of_mem_claimsIn hq
    rw [hp.stop_inBytes, hq.stop_inBytes]
    exact hapart.imp (fun h => offsetOf_mono body h) fun h => offsetOf_mono body h
  exact ⟨⟨_, _, tiled_standing body⟩, pairwise_apart_claimsIn body,
    ⟨_, claimsIn_utf8 body, rfl, hbytes⟩, fieldsOf_eq body, ofLine_eq⟩

end LoadBench
