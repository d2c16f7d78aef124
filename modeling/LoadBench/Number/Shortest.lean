import LoadBench.Number.Single

/-!
# The shortest decimal of a single

A number is written with the fewest digits that read back as the same single, always positionally:
`0.1`, `100`, `340282350000000000000000000000000000000`. The search goes down the decimal grids
`10 ^ 39`, `10 ^ 38`, … and stops at the first one with a point that reads back; of two such points
the nearer is written, and the upper one at a tie.
-/

namespace LoadBench

/-- The steps `10 ^ i` and `2 ^ (q - 2)` as multiples of one common unit. -/
structure Grid where
  ten : Nat
  two : Nat

namespace Grid

def of (i q : Int) : Grid where
  ten := Nat.pow 10 i.toNat * Nat.pow 2 (2 - q).toNat
  two := Nat.pow 2 (q - 2).toNat * Nat.pow 10 (-i).toNat

/-- Whether `n` decimal steps read back as the single `m * 2 ^ q`, whose lower neighbour is
`gap` quarter steps of `2 ^ q` beyond the border between the two. The borders themselves read
back to the even mantissa. -/
def readsBack (g : Grid) (m gap n : Nat) : Bool :=
  let lower := (4 * m - gap) * g.two
  let upper := (4 * m + 2) * g.two
  let x := n * g.ten
  if m % 2 = 0 then lower ≤ x && x ≤ upper else lower < x && x < upper

/-- The point of the decimal grid that stands for `m * 2 ^ q`, if one reads back: one of the two
beside it, the nearer if both do. -/
def point? (g : Grid) (m gap : Nat) : Option Nat :=
  let n := 4 * m * g.two / g.ten
  match g.readsBack m gap n, g.readsBack m gap (n + 1) with
  | true, true => if 2 * (4 * m * g.two % g.ten) < g.ten then some n else some (n + 1)
  | true, false => some n
  | false, true => some (n + 1)
  | false, false => none

end Grid

/-- All digits of `m * 2 ^ q`, as `n * 10 ^ i`. -/
def exactDecimal (m : Nat) (q : Int) : Nat × Int :=
  if 0 ≤ q then (m <<< q.toNat, 0) else (m * Nat.pow 5 (-q).toNat, q)

/-- The first of the grids `10 ^ i`, `10 ^ (i - 1)`, … that has a point for `m * 2 ^ q`. -/
def firstPoint (m gap : Nat) (q i : Int) : Nat → Nat × Int
  | 0 => exactDecimal m q
  | k + 1 =>
    match (Grid.of i q).point? m gap with
    | some n => (n, i)
    | none => firstPoint m gap q (i - 1) k

/-- The fewest digits `n * 10 ^ i` that read back as `m * 2 ^ q`. Below a power of two the
singles are twice as dense. -/
def shortestDecimal (m : Nat) (q : Int) : Nat × Int :=
  let gap := if m = 0x800000 ∧ q ≠ Float.Model.Format.binary32.minExponent then 1 else 2
  firstPoint m gap q 39 100

def digits (n : Nat) : List Char := Nat.toDigits 10 n

def paddedDigits (width n : Nat) : List Char :=
  let ds := digits n
  List.replicate (width - ds.length) '0' ++ ds

/-- `n * 10 ^ i` without an exponent and, if whole, without a point. -/
def positional (n : Nat) (i : Int) : List Char :=
  if 0 ≤ i then
    digits n ++ List.replicate i.toNat '0'
  else
    let places := (-i).toNat
    let unit := Nat.pow 10 places
    digits (n / unit) ++ '.' :: paddedDigits places (n % unit)

def signText : Float.Model.UnpackedFloat.Sign → String
  | .positive => ""
  | .negative => "-"

/-- The shortest text that reads back as the same single. -/
def Single.text (x : Single) : String :=
  match x.unpack with
  | .notANumber => "NaN"
  | .infinity s => signText s ++ "inf"
  | .zero s => signText s ++ "0"
  | .finite s m q _ =>
    let (n, i) := shortestDecimal m q
    signText s ++ String.ofList (positional n i)

end LoadBench
