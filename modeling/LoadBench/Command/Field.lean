import LoadBench.Number.Numeral
import LoadBench.Text.Blank

/-!
# Fields of a command line

After its opcode a command line carries fields: a key of one to three letters followed by a value.
Keys are found in a fixed order, each at its first place that meets no place found before, so the
`C` of `RLC` is not a cycle count. A value runs to the next key that was found, or to the end.
-/

namespace LoadBench

inductive Field where
  | spi | dlc | olc | rlc | x | f | w | c
  deriving DecidableEq, Repr

namespace Field

/-- The fields in the order in which their keys are looked for. -/
def all : List Field := [.spi, .dlc, .olc, .rlc, .x, .f, .w, .c]

/-- The name of a field, which is also what a line writes in front of its value. -/
def name : Field → String
  | .spi => "SPI"
  | .dlc => "DLC"
  | .olc => "OLC"
  | .rlc => "RLC"
  | .x => "X"
  | .f => "F"
  | .w => "W"
  | .c => "C"

def key : Field → List Char
  | .spi => ['S', 'P', 'I']
  | .dlc => ['D', 'L', 'C']
  | .olc => ['O', 'L', 'C']
  | .rlc => ['R', 'L', 'C']
  | .x => ['X']
  | .f => ['F']
  | .w => ['W']
  | .c => ['C']

theorem mem_all (k : Field) : k ∈ all := by cases k <;> decide

theorem key_ne_nil (k : Field) : k.key ≠ [] := by cases k <;> decide

end Field

/-- A key found in the body of a line, at the character `start`. -/
structure Claim where
  field : Field
  start : Nat
  deriving DecidableEq, Repr

namespace Claim

def stop (k : Claim) : Nat := k.start + k.field.key.length

def meets (k : Claim) (start stop : Nat) : Bool := start < k.stop && k.start < stop

end Claim

/-- The first place of `key` that meets no claim, in a text that starts at `pos`. -/
def findFree (key : List Char) (claims : List Claim) (pos : Nat) : List Char → Option Nat
  | [] => none
  | c :: cs =>
    if key.isPrefixOf (c :: cs) && !claims.any (·.meets pos (pos + key.length)) then some pos
    else findFree key claims (pos + 1) cs

def addClaim (body : List Char) (claims : List Claim) (k : Field) : List Claim :=
  match findFree k.key claims 0 body with
  | some pos => claims ++ [⟨k, pos⟩]
  | none => claims

def claimsIn (body : List Char) : List Claim := Field.all.foldl (addClaim body) []

/-- Where the value of a claim ends: at the next key that was found, or with the body. -/
def valueEnd (claims : List Claim) (length : Nat) (k : Claim) : Nat :=
  ((claims.map Claim.start).filter (k.stop ≤ ·)).min?.getD length

def valueOf (body : List Char) (claims : List Claim) (k : Claim) : List Char :=
  (body.drop k.stop).take (valueEnd claims body.length k - k.stop)

/-- The value texts of a line, by field. -/
abbrev Fields := Field → Option (List Char)

def Fields.ofBody (body : List Char) : Fields :=
  let claims := claimsIn body
  fun k => (claims.find? (·.field = k)).map (valueOf body claims)

/-- What a command finds when it consults a field. -/
inductive FieldValue where
  | absent
  /-- The field is there, but its text is not a finite number. -/
  | bad (text : List Char)
  | number (x : Single)

/-- Reads a value text without the blanks around it. -/
def FieldValue.ofText (text : List Char) : FieldValue :=
  let text := trim text
  match Single.read? text with
  | some x => if x.isFinite then .number x else .bad text
  | none => .bad text

def Fields.value (fields : Fields) (k : Field) : FieldValue :=
  match fields k with
  | some text => .ofText text
  | none => .absent

end LoadBench
