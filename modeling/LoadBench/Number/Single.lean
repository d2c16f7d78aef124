/-!
# Single-precision numbers

Every physical quantity of the bench is a single-precision number. The arithmetic is the core
library's, whose operations unpack their operands into sign, mantissa and exponent and pack the
rounded result. The conversions below work on the same unpacked form, so a statement about them is
a statement about mantissas and exponents.
-/

namespace LoadBench

open Float.Model (UnpackedFloat)

abbrev Single := Float32

/-- A double-precision number, used for step periods and for numbers of a document. -/
abbrev Double := Float

def wholePart (m : Nat) (e : Int) : Nat :=
  if 0 ≤ e then m <<< e.toNat else m >>> (-e).toNat

/-- The whole number nearest to `m * 2 ^ e`; a half goes up. -/
def wholeNearest (m : Nat) (e : Int) : Nat :=
  if 0 ≤ e then m <<< e.toNat else (m + 1 <<< ((-e).toNat - 1)) >>> (-e).toNat

def clamp (lo hi n : Int) : Int := max lo (min hi n)

/-- An integer in `[lo, hi]`, the magnitude made whole by `whole`. No number gives zero, and what
lies outside the range, an infinity too, gives the bound it passes. -/
def saturate (lo hi : Int) (whole : Nat → Int → Nat) : UnpackedFloat → Int
  | .notANumber => 0
  | .infinity .positive => hi
  | .infinity .negative => lo
  | .zero _ => 0
  | .finite s m e _ => clamp lo hi (s.apply (whole m e))

theorem clamp_mem {lo hi : Int} (h : lo ≤ hi) (n : Int) :
    lo ≤ clamp lo hi n ∧ clamp lo hi n ≤ hi := by
  unfold clamp; omega

theorem clamp_of_mem {lo hi n : Int} (h : lo ≤ n) (h' : n ≤ hi) : clamp lo hi n = n := by
  unfold clamp; omega

theorem saturate_mem {lo hi : Int} (h : lo ≤ 0) (h' : 0 ≤ hi) (whole : Nat → Int → Nat)
    (u : UnpackedFloat) : lo ≤ saturate lo hi whole u ∧ saturate lo hi whole u ≤ hi := by
  unfold saturate
  split
  all_goals first | exact clamp_mem (Int.le_trans h h') _ | (constructor <;> omega)

namespace Single

def unpack (x : Single) : UnpackedFloat := x.toModel.unpack

/-- The number nearest to an integer; a tie goes to the even mantissa. -/
def ofInt (n : Int) : Single := ⟨Float32.Model.ofInt n⟩

/-- The integer of `[lo, hi]` nearest to the number; halves go away from zero. -/
def nearest (lo hi : Int) (x : Single) : Int := saturate lo hi wholeNearest x.unpack

/-- The number without its fraction, as an integer of `[lo, hi]`. -/
def truncate (lo hi : Int) (x : Single) : Int := saturate lo hi wholePart x.unpack

theorem nearest_mem {lo hi : Int} (h : lo ≤ 0) (h' : 0 ≤ hi) (x : Single) :
    lo ≤ nearest lo hi x ∧ nearest lo hi x ≤ hi := saturate_mem h h' _ _

def widen (x : Single) : Double :=
  ⟨.pack <| match x.unpack with
    | .finite s m e _ => .round .binary64 s m e
    | u => u⟩

end Single

namespace Double

def unpack (x : Double) : UnpackedFloat := x.toModel.unpack

def narrow (x : Double) : Single :=
  ⟨.pack <| match x.unpack with
    | .finite s m e _ => .round .binary32 s m e
    | u => u⟩

/-- The whole part of a number that is not negative, at most `hi`. -/
def floorNat (hi : Nat) (x : Double) : Nat := (saturate 0 hi wholePart x.unpack).toNat

/-- The whole part of a finite number that is not negative, as a number. -/
def floor (x : Double) : Double :=
  match x.unpack with
  | .finite _ m e _ => if 0 ≤ e then x else ⟨.ofNat (wholePart m e)⟩
  | _ => x

end Double

end LoadBench
