import LoadBench.Number.Shortest

/-!
# Singles with a fixed number of decimal places

The exact value is rounded once, a half to the even neighbour.
-/

namespace LoadBench

/-- The whole number nearest to `num / den`; a half goes to the even neighbour. -/
def divNearestEven (num den : Nat) : Nat :=
  let q := num / den
  let r := num % den
  if 2 * r < den then q else if den < 2 * r then q + 1 else q + q % 2

/-- `m * 2 ^ q` in units of `10 ^ -places`. -/
def roundedUnits (places m : Nat) (q : Int) : Nat :=
  divNearestEven (m * Nat.pow 10 places * Nat.pow 2 q.toNat) (Nat.pow 2 (-q).toNat)

/-- `n` units of `10 ^ -places`, with every place written. -/
def fixedPoint (places n : Nat) : List Char :=
  if places = 0 then digits n
  else
    let unit := Nat.pow 10 places
    digits (n / unit) ++ '.' :: paddedDigits places (n % unit)

def Single.fixed (places : Nat) (x : Single) : String :=
  match x.unpack with
  | .notANumber => "NaN"
  | .infinity s => signText s ++ "inf"
  | .zero s => signText s ++ String.ofList (fixedPoint places 0)
  | .finite s m q _ => signText s ++ String.ofList (fixedPoint places (roundedUnits places m q))

end LoadBench
