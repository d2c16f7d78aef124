import LoadBench.Config.Basic
import LoadBench.Proofs.Offsets

/-!
# What diagnostics quote

A diagnostic quotes the longest front of a text that fits into its room and ends between two
characters. The opcode of a refused line is quoted from the characters of the line where its third
byte ends no character, and from its first three bytes where it does.
-/

namespace LoadBench

/-! ## Fronts that fit -/

/-- The longest front of a text that has at most `room` bytes and ends between two characters. -/
structure LongestFront (room : Nat) (text kept : String) : Prop where
  front : ∃ rest, text = kept ++ rest
  fits : kept.utf8ByteSize ≤ room
  longest : ∀ p : String.Pos.Raw, p.IsValid text → p.byteIdx ≤ room → p.byteIdx ≤ kept.utf8ByteSize
  /-- All of the text is kept, or the next character would not fit. -/
  stops : kept = text ∨
    ∃ c rest, text = kept ++ (String.singleton c ++ rest) ∧ room < kept.utf8ByteSize + c.utf8Size

/-- What is cut off begins with a character that has no room. -/
theorem cut_append (room : Nat) (cs : List Char) :
    ∃ rest, cs = cut room cs ++ rest ∧ byteSize (cut room cs) ≤ room ∧
      ∀ c ∈ rest.head?, room < byteSize (cut room cs) + c.utf8Size := by
  fun_induction cut room cs with
  | case1 room => exact ⟨[], rfl, Nat.zero_le room, nofun⟩
  | case2 room c cs hc ih =>
    obtain ⟨rest, hcs, hfits, hstops⟩ := ih
    refine ⟨rest, congrArg (c :: ·) hcs, ?_, fun d hd => ?_⟩
    · rw [byteSize_cons]
      omega
    · have hnext := hstops d hd
      rw [byteSize_cons]
      omega
  | case3 room c cs hc =>
    refine ⟨c :: cs, rfl, Nat.zero_le room, fun d hd => ?_⟩
    obtain rfl : c = d := Option.some.inj hd
    exact Nat.lt_of_not_le (by simpa [byteSize] using hc)

/-- Nothing that fits goes further than a front after which the next character does not fit. -/
theorem byteSize_le_of_append {room : Nat} {kept rest front back : List Char}
    (h : kept ++ rest = front ++ back) (hstops : ∀ c ∈ rest.head?, room < byteSize kept + c.utf8Size)
    (hfits : byteSize front ≤ room) : byteSize front ≤ byteSize kept := by
  rcases List.append_eq_append_iff.1 h with ⟨more, rfl, hrest⟩ | ⟨more, rfl, _⟩
  · cases more with
    | nil => rw [List.append_nil]
    | cons c more =>
      have hnext := hstops c (by rw [hrest]; rfl)
      rw [byteSize_append, byteSize_cons] at hfits
      omega
  · rw [byteSize_append]
    omega

/-- A front that fits is the longest when the next character does not. -/
theorem longestFront_of_append {room : Nat} {kept rest : List Char} (hfits : byteSize kept ≤ room)
    (hstops : ∀ c ∈ rest.head?, room < byteSize kept + c.utf8Size) :
    LongestFront room (.ofList (kept ++ rest)) (.ofList kept) where
  front := ⟨.ofList rest, String.ofList_append⟩
  fits := by rwa [← byteSize_eq]
  longest p hp hroom := by
    obtain ⟨front, back, happend, rfl⟩ := String.Pos.Raw.isValid_iff_exists_append.1 hp
    have hsize : byteSize front.toList = front.utf8ByteSize := by
      rw [byteSize_eq, String.ofList_toList]
    have hlists : kept ++ rest = front.toList ++ back.toList := by
      rw [← String.toList_append, ← happend, String.toList_ofList]
    have hle := byteSize_le_of_append hlists hstops (hsize.trans_le hroom)
    rwa [hsize, byteSize_eq kept] at hle
  stops := by
    cases rest with
    | nil => exact .inl (by rw [List.append_nil])
    | cons c rest =>
      refine .inr ⟨c, .ofList rest, ?_, ?_⟩
      · rw [String.ofList_append, String.ofList_cons]
      · rw [← byteSize_eq]
        exact hstops c rfl

theorem longestFront_cut (room : Nat) (cs : List Char) :
    LongestFront room (.ofList cs) (.ofList (cut room cs)) := by
  obtain ⟨rest, hcs, hfits, hstops⟩ := cut_append room cs
  have hfront := longestFront_of_append hfits hstops
  rwa [← hcs] at hfront

/-- A bad value is quoted in 32 bytes, what is said of a file or a document in 128, and an opcode is
quoted from three characters in 8. Each time as much is kept as fits without a part of a character. -/
theorem quotes_longest (text : String) (k : Field) :
    (∃ kept, LineError.ofValue k text.toList = .invalidValue k kept ∧ LongestFront 32 text kept) ∧
    LongestFront 128 text (ConfigError.detail text) ∧
    ∃ kept, LineError.ofOpcode text.toList = .unknownOpcode kept ∧
      LongestFront 8 (.ofList (text.toList.take 3)) kept := by
  have hcut (room : Nat) : LongestFront room text (.ofList (cut room text.toList)) := by
    have hfront := longestFront_cut room text.toList
    rwa [String.ofList_toList] at hfront
  exact ⟨⟨_, rfl, hcut 32⟩, hcut 128, _, rfl, longestFront_cut 8 (text.toList.take 3)⟩

/-! ## Opcodes -/

theorem length_le_byteSize (cs : List Char) : cs.length ≤ byteSize cs := by
  induction cs with
  | nil => exact Nat.zero_le 0
  | cons c cs ih =>
    have hc := c.utf8Size_pos
    rw [List.length_cons, byteSize_cons]
    omega

/-- An offset is one between two characters exactly when the text can be split there. -/
theorem isValid_iff_splitBytes? {n : Nat} {cs : List Char} :
    (String.Pos.Raw.mk n).IsValid (.ofList cs) ↔ ∃ parts, splitBytes? n cs = some parts := by
  rw [String.Pos.Raw.isValid_iff_exists_append]
  constructor
  · rintro ⟨front, rest, happend, hsize⟩
    refine ⟨(front.toList, rest.toList), splitBytes?_eq_some.2 ⟨?_, ?_⟩⟩
    · rw [← String.toList_append, ← happend, String.toList_ofList]
    · rw [byteSize_eq, String.ofList_toList]
      exact congrArg String.Pos.Raw.byteIdx hsize.symm
  · rintro ⟨⟨front, rest⟩, hsplit⟩
    obtain ⟨rfl, hsize⟩ := splitBytes?_eq_some.1 hsplit
    refine ⟨.ofList front, .ofList rest, String.ofList_append, ?_⟩
    rw [String.rawEndPos, ← byteSize_eq, hsize]

/-- What fits is kept whole. -/
theorem cut_of_fits {room : Nat} {cs : List Char} (h : byteSize cs ≤ room) : cut room cs = cs := by
  obtain ⟨rest, hcs, _, hstops⟩ := cut_append room cs
  cases rest with
  | nil => rw [List.append_nil] at hcs; exact hcs.symm
  | cons c rest =>
    have hnext := hstops c rfl
    rw [hcs, byteSize_append, byteSize_cons] at h
    omega

theorem longestFront_self {room : Nat} {cs : List Char} (h : byteSize cs ≤ room) :
    LongestFront room (.ofList cs) (.ofList cs) := by
  have hfront := longestFront_cut room cs
  rwa [cut_of_fits h] at hfront

/-- Three bytes are quoted whole. -/
theorem ofOpcode_of_byteSize_eq_three {front : List Char} (h : byteSize front = 3) :
    LineError.ofOpcode front = .unknownOpcode (.ofList front) := by
  have hlength := length_le_byteSize front
  rw [LineError.ofOpcode, List.take_of_length_le (by omega), cut_of_fits (by omega)]

namespace Command

/-- The two ways to an unknown opcode, and what is quoted on each. -/
theorem ofLine_eq_unknownOpcode {line quoted : String} :
    ofLine line = .error (.unknownOpcode quoted) ↔
      splitBytes? 3 (trim line.toList) = none ∧
          quoted = .ofList (cut 8 ((trim line.toList).take 3)) ∨
        ∃ front rest, splitBytes? 3 (trim line.toList) = some (front, rest) ∧
          Opcode.read? front = none ∧ quoted = .ofList front := by
  unfold ofLine ofChars
  cases hsplit : splitBytes? 3 (trim line.toList) with
  | none => simp [hsplit, LineError.ofOpcode, eq_comm]
  | some parts =>
    obtain ⟨front, rest⟩ := parts
    obtain ⟨_, hsize⟩ := splitBytes?_eq_some.1 hsplit
    cases hread : Opcode.read? front with
    | none => simp [hsplit, hread, ofOpcode_of_byteSize_eq_three hsize, eq_comm]
    | some opcode => simp [hsplit, hread, ofFields_ne_unknownOpcode]

/-- A character that ends within the room is part of what is quoted. -/
theorem not_longestFront_of_append {front more : List Char} {c : Char} (hsize : byteSize front = 3) :
    ¬ LongestFront 8 (.ofList (front ++ c :: more)) (.ofList front) := by
  intro h
  have hc := c.utf8Size_pos
  have hc' := c.utf8Size_le_four
  have hend : byteSize (front ++ [c]) = 3 + c.utf8Size := by
    rw [byteSize_append, hsize, byteSize_cons]
    rfl
  have hvalid : (String.Pos.Raw.mk (3 + c.utf8Size)).IsValid (.ofList (front ++ c :: more)) :=
    isValid_iff_splitBytes?.2
      ⟨_, splitBytes?_eq_some.2 ⟨(List.append_assoc front [c] more).symm, hend⟩⟩
  have hle := h.longest _ hvalid (by change 3 + c.utf8Size ≤ 8; omega)
  rw [← byteSize_eq, hsize] at hle
  change 3 + c.utf8Size ≤ 3 at hle
  omega

/-- Three bytes with a character after them are the first three characters if they are three. -/
theorem longestFront_three_iff {front rest : List Char} {c : Char} (hsize : byteSize front = 3) :
    LongestFront 8 (.ofList ((front ++ c :: rest).take 3)) (.ofList front) ↔ front.length = 3 := by
  have hlength := length_le_byteSize front
  constructor
  · intro hquoted
    by_contra hshort
    obtain ⟨k, hk⟩ : ∃ k, 3 - front.length = k + 1 := ⟨2 - front.length, by omega⟩
    rw [List.take_append, List.take_of_length_le (by omega), hk, List.take_succ_cons] at hquoted
    exact not_longestFront_of_append hsize hquoted
  · intro hthree
    rw [List.take_left' hthree]
    exact longestFront_self (by omega)

/-- An unknown opcode is quoted by the first three characters of the line, as far as they fit into
eight bytes, if the third byte ends no character. Otherwise the first three bytes are quoted. These
are the first three characters unless the line goes on after fewer than three. -/
theorem opcode_quoted {line quoted : String} (h : ofLine line = .error (.unknownOpcode quoted)) :
    let t := trim line.toList
    let three := String.ofList (t.take 3)
    (¬ (String.Pos.Raw.mk 3).IsValid (.ofList t) → LongestFront 8 three quoted) ∧
    (∀ front rest, t = front ++ rest → byteSize front = 3 → quoted = .ofList front) ∧
    (LongestFront 8 three quoted ↔
      ∀ front c rest, t = front ++ c :: rest → byteSize front = 3 → front.length = 3) := by
  intro t three
  rcases ofLine_eq_unknownOpcode.1 h with ⟨hnone, rfl⟩ | ⟨front, rest, hsplit, _, rfl⟩
  · have hquoted : LongestFront 8 three (.ofList (cut 8 (t.take 3))) := longestFront_cut 8 _
    have hinside : ∀ front rest, t = front ++ rest → byteSize front ≠ 3 := by
      intro front rest ht hsize
      have hsome := splitBytes?_eq_some.2 ⟨ht, hsize⟩
      rw [hnone] at hsome
      cases hsome
    exact ⟨fun _ => hquoted, fun front rest ht hsize => absurd hsize (hinside front rest ht),
      iff_of_true hquoted fun front c rest ht hsize => absurd hsize (hinside front _ ht)⟩
  · have hends : (String.Pos.Raw.mk 3).IsValid (.ofList t) := isValid_iff_splitBytes?.2 ⟨_, hsplit⟩
    have hsame : ∀ front' rest', t = front' ++ rest' → byteSize front' = 3 →
        front' = front ∧ rest' = rest := by
      intro front' rest' ht hsize
      have hsplit' := splitBytes?_eq_some.2 ⟨ht, hsize⟩
      exact Prod.mk.inj (Option.some.inj (hsplit'.symm.trans hsplit))
    obtain ⟨ht, hsize⟩ : t = front ++ rest ∧ byteSize front = 3 := splitBytes?_eq_some.1 hsplit
    refine ⟨fun hinside => absurd hends hinside,
      fun front' rest' ht' hsize' => by rw [(hsame _ _ ht' hsize').1], ?_⟩
    cases rest with
    | nil =>
      have hlength := length_le_byteSize front
      have htake : t.take 3 = front := by
        rw [ht, List.append_nil, List.take_of_length_le (by omega)]
      have hquoted : LongestFront 8 three (.ofList front) := by
        rw [show three = .ofList front from congrArg String.ofList htake]
        exact longestFront_self (by omega)
      refine iff_of_true hquoted fun front' c rest' ht' hsize' => ?_
      exact absurd (hsame _ _ ht' hsize').2 (List.cons_ne_nil c rest')
    | cons c rest =>
      rw [show three = .ofList ((front ++ c :: rest).take 3) by rw [← ht], longestFront_three_iff hsize]
      constructor
      · intro hthree front' c' rest' ht' hsize'
        rwa [(hsame _ _ ht' hsize').1]
      · intro hall
        exact hall front c rest ht hsize

/-- The third byte of this line is inside its third character. -/
theorem splitCharacter_quoted : ofLine "M3é1" = .error (.unknownOpcode "M3é") ∧
    LongestFront 8 "M3é" "M3é" := by
  have hrefused : ofLine "M3é1" = .error (.unknownOpcode "M3é") :=
    ofLine_eq_unknownOpcode.2 (.inl ⟨by decide, by decide⟩)
  refine ⟨hrefused, (opcode_quoted hrefused).1 ?_⟩
  rw [isValid_iff_splitBytes?]
  rintro ⟨parts, hparts⟩
  exact absurd hparts (by decide +revert)

/-- The first three bytes of this line are two characters, and the third is not quoted. -/
theorem third_character_dropped : ofLine "é1X5" = .error (.unknownOpcode "é1") ∧
    ¬ LongestFront 8 (.ofList ((trim "é1X5".toList).take 3)) "é1" := by
  refine ⟨ofLine_eq_unknownOpcode.2 (.inr ⟨['é', '1'], ['X', '5'], by decide, rfl, rfl⟩), ?_⟩
  have hthree : (trim "é1X5".toList).take 3 = ['é', '1'] ++ 'X' :: [] := by decide
  rw [hthree]
  exact not_longestFront_of_append (by decide)

end Command

end LoadBench
