/-!
# Texts of bounded size

A diagnostic keeps a bounded number of bytes of the text it quotes. It is cut between characters:
characters are kept from the front as long as the next one still fits.
-/

namespace LoadBench

def byteSize (cs : List Char) : Nat := cs.foldr (fun c n => c.utf8Size + n) 0

/-- As many characters from the front as fit into `room` bytes. -/
def cut : Nat → List Char → List Char
  | _, [] => []
  | room, c :: cs => if c.utf8Size ≤ room then c :: cut (room - c.utf8Size) cs else []

/-- The first `n` bytes and the rest, if the `n`-th byte ends a character. -/
def splitBytes? : Nat → List Char → Option (List Char × List Char)
  | 0, cs => some ([], cs)
  | _ + 1, [] => none
  | n + 1, c :: cs =>
    if c.utf8Size ≤ n + 1 then
      (splitBytes? (n + 1 - c.utf8Size) cs).map fun (front, rest) => (c :: front, rest)
    else
      none

/-! ## Bytes of a text -/

theorem byteSize_cons (c : Char) (cs : List Char) :
    byteSize (c :: cs) = c.utf8Size + byteSize cs := rfl

theorem byteSize_eq (cs : List Char) : byteSize cs = (String.ofList cs).utf8ByteSize := by
  induction cs with
  | nil => rfl
  | cons c cs ih =>
    rw [byteSize_cons, ih, String.ofList_cons, String.utf8ByteSize_append,
      String.utf8ByteSize_singleton]

theorem splitBytes?_eq_some {n : Nat} {cs front rest : List Char} :
    splitBytes? n cs = some (front, rest) ↔ cs = front ++ rest ∧ byteSize front = n := by
  fun_induction splitBytes? n cs generalizing front with
  | case1 cs =>
    cases front with
    | nil => simp [byteSize]
    | cons c front =>
      refine ⟨nofun, fun h => ?_⟩
      have hc := c.utf8Size_pos
      have hsize := h.2
      rw [byteSize_cons] at hsize
      omega
  | case2 n => cases front <;> simp [byteSize]
  | case3 n c cs hc ih =>
    cases front with
    | nil => simp [byteSize]
    | cons d front =>
      have hcons : ((splitBytes? (n + 1 - c.utf8Size) cs).map fun (front, rest) => (c :: front, rest)) =
          some (d :: front, rest) ↔ c = d ∧ splitBytes? (n + 1 - c.utf8Size) cs = some (front, rest) := by
        rw [Option.map_eq_some_iff]
        constructor
        · rintro ⟨⟨_, _⟩, hsplit, heq⟩
          cases heq
          exact ⟨rfl, hsplit⟩
        · rintro ⟨rfl, hsplit⟩
          exact ⟨_, hsplit, rfl⟩
      rw [hcons, ih, byteSize_cons, List.cons_append, List.cons.injEq]
      constructor
      · rintro ⟨rfl, rfl, hsize⟩
        exact ⟨⟨rfl, rfl⟩, by omega⟩
      · rintro ⟨⟨rfl, rfl⟩, hsize⟩
        exact ⟨rfl, rfl, by omega⟩
  | case4 n c cs hc =>
    cases front with
    | nil => simp [byteSize]
    | cons d front =>
      simp only [byteSize_cons, List.cons_append, List.cons.injEq, reduceCtorEq, false_iff]
      rintro ⟨⟨rfl, _⟩, hsize⟩
      omega

end LoadBench
