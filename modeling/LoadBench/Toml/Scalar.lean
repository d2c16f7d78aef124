import LoadBench.Toml.Value

/-!
# TOML numbers, truth values and dates

What is neither a string nor in brackets is one word: a truth value, a number or a date. Digits may
be grouped by single underscores. Integers fit into 64 bits.
-/

namespace LoadBench.Toml

/-- Digits without the underscores between them. -/
def ungrouped? (isDigit : Char → Bool) : List Char → Option (List Char)
  | [] => none
  | c :: cs =>
    if isDigit c then
      match cs with
      | [] => some [c]
      | '_' :: cs => (ungrouped? isDigit cs).map (c :: ·)
      | cs => (ungrouped? isDigit cs).map (c :: ·)
    else none

/-- The digits of a decimal integer, which does not start with a zero unless it is one. -/
def decimalDigits? (cs : List Char) : Option (List Char) := do
  let ds ← ungrouped? Char.isDigit cs
  if ds.head? = some '0' ∧ cs ≠ ['0'] then none else some ds

def decimal? (cs : List Char) : Option Int := do
  let (negative, cs) := Numeral.splitSign cs
  let n := Numeral.natOf (← decimalDigits? cs)
  return if negative then -n else n

def natInBase (base : Nat) (ds : List Char) : Nat :=
  ds.foldl (fun n c => base * n + (if c.isDigit then c.toNat - '0'.toNat
    else c.toLower.toNat - 'a'.toNat + 10)) 0

def isHexDigit (c : Char) : Bool := c.isDigit || ('a' ≤ c && c ≤ 'f') || ('A' ≤ c && c ≤ 'F')

def isOctalDigit (c : Char) : Bool := '0' ≤ c && c ≤ '7'

def isBinaryDigit (c : Char) : Bool := c = '0' || c = '1'

def integer? (cs : List Char) : Option Int := do
  let n : Int ← match cs with
    | '0' :: 'x' :: ds => (ungrouped? isHexDigit ds).map fun ds => (natInBase 16 ds : Int)
    | '0' :: 'o' :: ds => (ungrouped? isOctalDigit ds).map fun ds => (natInBase 8 ds : Int)
    | '0' :: 'b' :: ds => (ungrouped? isBinaryDigit ds).map fun ds => (natInBase 2 ds : Int)
    | _ => decimal? cs
  if -0x8000000000000000 ≤ n ∧ n < 0x8000000000000000 then some n else none

def power? (cs : List Char) : Option Int := do
  let (negative, cs) := Numeral.splitSign cs
  let n := Numeral.natOf (← ungrouped? Char.isDigit cs)
  return if negative then -n else n

def fraction? (cs : List Char) : Option Numeral := do
  let (negative, cs) := Numeral.splitSign cs
  let isPower (c : Char) : Bool := c = 'e' || c = 'E'
  let mantissa := cs.takeWhile (!isPower ·)
  let power ← match cs.dropWhile (!isPower ·) with
    | [] => some 0
    | _ :: cs => power? cs
  let whole ← decimalDigits? (mantissa.takeWhile (· != '.'))
  let places ← match mantissa.dropWhile (· != '.') with
    | [] => if mantissa.length = cs.length then none else some []
    | _ :: ds => ungrouped? Char.isDigit ds
  return .decimal negative (Numeral.natOf (whole ++ places)) (power - places.length)

/-- A floating-point number. One that is too large is none, unless it is negative. -/
def float? (cs : List Char) : Option Double := do
  let (negative, word) := Numeral.splitSign cs
  if word = ['i', 'n', 'f'] then
    return (Numeral.infinity negative).toDouble
  else if word = ['n', 'a', 'n'] then
    return Numeral.notANumber.toDouble
  else
    let x := (← fraction? cs).toDouble
    if x.isInf && 0 < x then none else some x

/-- The number of exactly `n` digits at the front, if it lies in `[lo, hi]`. -/
def field? (n lo hi : Nat) : Scan Nat := fun cs =>
  let ds := cs.take n
  let v := Numeral.natOf ds
  if ds.length = n ∧ ds.all Char.isDigit ∧ lo ≤ v ∧ v ≤ hi then some (v, cs.drop n) else none

def daysIn (year month : Nat) : Nat :=
  if month = 2 then
    if year % 4 = 0 ∧ (year % 100 ≠ 0 ∨ year % 400 = 0) then 29 else 28
  else if month = 4 ∨ month = 6 ∨ month = 9 ∨ month = 11 then 30
  else 31

/-- What follows a date `2020-12-31`. -/
def date? (cs : List Char) : Option (List Char) := do
  let (year, cs) ← field? 4 0 9999 cs
  let (month, cs) ← field? 2 1 12 (← dropFront ['-'] cs)
  let (_, cs) ← field? 2 1 (daysIn year month) (← dropFront ['-'] cs)
  return cs

/-- What follows a time of day `23:59:60.5`. -/
def time? (cs : List Char) : Option (List Char) := do
  let (_, cs) ← field? 2 0 23 cs
  let (_, cs) ← field? 2 0 59 (← dropFront [':'] cs)
  let (_, cs) ← field? 2 0 60 (← dropFront [':'] cs)
  match cs with
  | '.' :: d :: cs => if d.isDigit then some (cs.dropWhile Char.isDigit) else none
  | cs => some cs

/-- Whether the text is an offset from universal time, or nothing. -/
def isOffset : List Char → Bool
  | [] | ['Z'] | ['z'] => true
  | c :: cs =>
    (c = '+' || c = '-') &&
      (do
        let (_, cs) ← field? 2 0 23 cs
        let (_, cs) ← field? 2 0 59 (← dropFront [':'] cs)
        return cs) == some []

/-- Whether the text is a time of day, with an offset if it `mayShift`. -/
def isTime (mayShift : Bool) (cs : List Char) : Bool :=
  match time? cs with
  | some rest => if mayShift then isOffset rest else rest = []
  | none => false

/-- Whether a word is a date, a time of day, or both with a `T` between them. -/
def isDatetime (cs : List Char) : Bool :=
  isTime false cs ||
    match date? cs with
    | some [] => true
    | some (c :: rest) => (c = 'T' || c = 't') && isTime true rest
    | none => false

def word? (cs : List Char) : Option Value :=
  if cs = ['t', 'r', 'u', 'e'] then some (.boolean true)
  else if cs = ['f', 'a', 'l', 's', 'e'] then some (.boolean false)
  else if isDatetime cs then some .datetime
  else match float? cs with
    | some x => some (.float x)
    | none => (integer? cs).map .integer

def isWordChar (c : Char) : Bool :=
  c.isAlphanum || c = '+' || c = '-' || c = '_' || c = '.' || c = ':'

/-- A word at the front of a text. A time of day belongs to the date one blank before it. -/
def scalar : Scan Value := fun cs => do
  let word := cs.takeWhile isWordChar
  let rest := cs.drop word.length
  let v ← word? word
  match rest with
  | ' ' :: more =>
    let time := more.takeWhile isWordChar
    if date? word = some [] ∧ isTime true time then return (.datetime, more.drop time.length)
    else return (v, rest)
  | _ => return (v, rest)

end LoadBench.Toml
