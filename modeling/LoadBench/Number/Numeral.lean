import LoadBench.Number.Single

/-!
# Reading numbers

A numeral is an optional sign, decimal digits with at most one point, and an optional power of ten:
`5`, `-.5`, `5.`, `+1e-3`. The words `inf`, `infinity` and `nan` count too, in any case. Nothing may
stand before or after it.
-/

namespace LoadBench

inductive Numeral where
  | notANumber
  | infinity (negative : Bool)
  /-- The number `digits * 10 ^ exponent`, negated if `negative`. -/
  | decimal (negative : Bool) (digits : Nat) (exponent : Int)
  deriving DecidableEq, Repr

namespace Numeral

def natOf (ds : List Char) : Nat := ds.foldl (fun n c => 10 * n + (c.toNat - '0'.toNat)) 0

/-- Splits a sign off; `true` is a minus. -/
def splitSign : List Char → Bool × List Char
  | '-' :: cs => (true, cs)
  | '+' :: cs => (false, cs)
  | cs => (false, cs)

def exponent? (cs : List Char) : Option Int :=
  let (negative, ds) := splitSign cs
  if ds ≠ [] ∧ ds.all Char.isDigit then
    some (if negative then -(natOf ds : Int) else natOf ds)
  else
    none

/-- Digits and power of ten of a numeral without its sign. -/
def magnitude? (cs : List Char) : Option (Nat × Int) :=
  let whole := cs.takeWhile Char.isDigit
  let afterWhole := cs.dropWhile Char.isDigit
  let (places, rest) := match afterWhole with
    | '.' :: r => (r.takeWhile Char.isDigit, r.dropWhile Char.isDigit)
    | r => ([], r)
  if whole = [] ∧ places = [] then
    none
  else
    let n := natOf (whole ++ places)
    let shift : Int := -(places.length : Int)
    match rest with
    | [] => some (n, shift)
    | c :: r => if c = 'e' ∨ c = 'E' then (exponent? r).map fun e => (n, shift + e) else none

def read? (cs : List Char) : Option Numeral :=
  let (negative, body) := splitSign cs
  match magnitude? body with
  | some (n, e) => some (.decimal negative n e)
  | none =>
    let word := body.map Char.toLower
    if word = ['i', 'n', 'f'] ∨ word = ['i', 'n', 'f', 'i', 'n', 'i', 't', 'y'] then
      some (.infinity negative)
    else if word = ['n', 'a', 'n'] then
      some .notANumber
    else
      none

/-- The single nearest to the number; a tie goes to the even mantissa. -/
def toSingle : Numeral → Single
  | .notANumber => ⟨.pack .notANumber⟩
  | .infinity negative => ⟨.pack (.infinity (if negative then .negative else .positive))⟩
  | .decimal negative n e =>
    let x : Single := ⟨.ofScientific n e⟩
    if negative then -x else x

def toDouble : Numeral → Double
  | .notANumber => ⟨.pack .notANumber⟩
  | .infinity negative => ⟨.pack (.infinity (if negative then .negative else .positive))⟩
  | .decimal negative n e =>
    let x : Double := ⟨.ofScientific n e⟩
    if negative then -x else x

end Numeral

def Single.read? (cs : List Char) : Option Single := (Numeral.read? cs).map Numeral.toSingle

end LoadBench
