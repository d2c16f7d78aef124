/-!
# Blanks

A blank is a character of the Unicode property `White_Space`. Lines, values and replies are read
without the blanks around them.
-/

namespace LoadBench

/-- Whether the character has the property `White_Space`. -/
def isBlank (c : Char) : Bool :=
  let n := c.toNat
  (9 ≤ n && n ≤ 13) || n == 0x20 || n == 0x85 || n == 0xA0 || n == 0x1680 ||
    (0x2000 ≤ n && n ≤ 0x200A) || n == 0x2028 || n == 0x2029 || n == 0x202F || n == 0x205F ||
    n == 0x3000

def trimEnd : List Char → List Char
  | [] => []
  | c :: cs => match trimEnd cs with
    | [] => if isBlank c then [] else [c]
    | kept => c :: kept

def trim (cs : List Char) : List Char := trimEnd (cs.dropWhile isBlank)

/-! ## What trimming keeps -/

theorem trimEnd_append (cs ds : List Char) :
    trimEnd (cs ++ ds) = if trimEnd ds = [] then trimEnd cs else cs ++ trimEnd ds := by
  induction cs with
  | nil => simp [trimEnd]
  | cons c cs ih =>
    rw [List.cons_append, trimEnd, ih]
    by_cases hds : trimEnd ds = []
    · rw [if_pos hds, if_pos hds, trimEnd]
    · rw [if_neg hds, if_neg hds]
      cases cs <;> simp

theorem trimEnd_append_of_trimEnd_eq {cs : List Char} (h : trimEnd cs = cs) (ds : List Char) :
    trimEnd (cs ++ ds) = cs ++ trimEnd ds := by
  rw [trimEnd_append]
  split
  · next hds => rw [h, hds, List.append_nil]
  · rfl

theorem trimEnd_of_blank {cs : List Char} (h : ∀ c ∈ cs, isBlank c) : trimEnd cs = [] := by
  induction cs with
  | nil => rfl
  | cons c cs ih =>
    have hcs : trimEnd cs = [] := ih fun d hd => h d (List.mem_cons_of_mem c hd)
    have hc : isBlank c := h c List.mem_cons_self
    simp [trimEnd, hcs, hc]

/-- Only blanks are trimmed from the end. -/
theorem exists_eq_trimEnd_append (cs : List Char) :
    ∃ bs, (∀ c ∈ bs, isBlank c) ∧ cs = trimEnd cs ++ bs := by
  induction cs with
  | nil => exact ⟨[], nofun, rfl⟩
  | cons c cs ih =>
    obtain ⟨bs, hbs, hcs⟩ := ih
    rw [trimEnd]
    split
    · next hnil =>
      rw [hnil, List.nil_append] at hcs
      by_cases hc : isBlank c
      · refine ⟨c :: cs, fun d hd => ?_, by simp [hc]⟩
        rcases List.mem_cons.1 hd with rfl | hd
        · exact hc
        · exact hbs d (hcs ▸ hd)
      · exact ⟨cs, hcs ▸ hbs, by simp [hc]⟩
    · exact ⟨bs, hbs, by rw [List.cons_append, ← hcs]⟩

theorem trim_blank_append {bs : List Char} (h : ∀ c ∈ bs, isBlank c) (cs : List Char) :
    trim (bs ++ cs) = trim cs := by
  rw [trim, List.dropWhile_append_of_pos h, trim]

theorem trim_append_blank {bs : List Char} (h : ∀ c ∈ bs, isBlank c) (cs : List Char) :
    trim (cs ++ bs) = trim cs := by
  rw [trim, List.dropWhile_append, trim]
  by_cases hcs : (cs.dropWhile isBlank).isEmpty
  · have hdropped : (bs ++ []).dropWhile isBlank = [] := List.dropWhile_append_of_pos h
    rw [List.append_nil] at hdropped
    rw [if_pos hcs, hdropped, List.isEmpty_iff.1 hcs]
  · rw [if_neg hcs, trimEnd_append, if_pos (trimEnd_of_blank h)]

theorem trim_trimEnd (cs : List Char) : trim (trimEnd cs) = trim cs := by
  obtain ⟨bs, hbs, hcs⟩ := exists_eq_trimEnd_append cs
  calc trim (trimEnd cs) = trim (trimEnd cs ++ bs) := (trim_append_blank hbs _).symm
    _ = trim cs := by rw [← hcs]

@[simp] theorem trim_trim (cs : List Char) : trim (trim cs) = trim cs := by
  have hfront : ∀ c ∈ cs.takeWhile isBlank, isBlank c := List.all_eq_true.1 List.all_takeWhile
  calc trim (trim cs) = trim (cs.dropWhile isBlank) := trim_trimEnd _
    _ = trim (cs.takeWhile isBlank ++ cs.dropWhile isBlank) := (trim_blank_append hfront _).symm
    _ = trim cs := by rw [List.takeWhile_append_dropWhile]

end LoadBench
