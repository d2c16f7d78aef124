import Mathlib.Algebra.Order.Field.Power
import Mathlib.Data.Rat.Floor
import Mathlib.Tactic.Positivity
import LoadBench.Number.Single

/-!
# Singles as rational numbers

A finite single is a rational number, its mantissa times a power of two. Cutting its fraction off is
rounding that number towards zero, and it is positive if that number is.
-/

namespace LoadBench

open Float.Model (UnpackedFloat)

def towardZero (q : ℚ) : ℤ := if 0 ≤ q then ⌊q⌋ else ⌈q⌉

/-- The number that is unpacked. What is not finite counts as zero. -/
def ratOf : UnpackedFloat → ℚ
  | .finite .positive m e _ => m * 2 ^ e
  | .finite .negative m e _ => -(m * 2 ^ e)
  | _ => 0

/-- Shifting a mantissa takes the floor of its value. -/
theorem wholePart_eq_floor (m : ℕ) (e : ℤ) : (wholePart m e : ℤ) = ⌊(m : ℚ) * 2 ^ e⌋ := by
  unfold wholePart
  split
  · next he =>
    obtain ⟨n, rfl⟩ := Int.eq_ofNat_of_zero_le he
    have hwhole : (m : ℚ) * 2 ^ (n : ℤ) = ((m * 2 ^ n : ℕ) : ℚ) := by push_cast; rfl
    rw [hwhole, Int.floor_natCast, Int.toNat_natCast, Nat.shiftLeft_eq]
  · next he =>
    obtain ⟨n, hn⟩ := Int.eq_ofNat_of_zero_le (Int.neg_nonneg_of_nonpos (Int.le_of_not_le he))
    obtain rfl : e = -(n : ℤ) := by omega
    have hquotient : (m : ℚ) * 2 ^ (-(n : ℤ)) = ((m : ℤ) : ℚ) / ((2 ^ n : ℕ) : ℚ) := by
      push_cast
      rw [zpow_neg, zpow_natCast, div_eq_mul_inv]
    rw [hquotient, Rat.floor_intCast_div_natCast, Int.neg_neg, Int.toNat_natCast,
      Nat.shiftRight_eq_div_pow]
    push_cast
    rfl

/-- A finite number is converted by dropping its fraction and clamping what is left. -/
theorem saturate_wholePart {lo hi : ℤ} (h : lo ≤ 0) (h' : 0 ≤ hi) {u : UnpackedFloat}
    (hu : u.isFinite) : saturate lo hi wholePart u = clamp lo hi (towardZero (ratOf u)) := by
  cases u with
  | infinity s => cases hu
  | notANumber => cases hu
  | zero s => exact (clamp_of_mem h h').symm
  | finite s m e hm =>
    have hpos : 0 < (m : ℚ) * 2 ^ e := by positivity
    cases s with
    | positive =>
      change clamp lo hi (wholePart m e) = clamp lo hi (towardZero (m * 2 ^ e))
      rw [towardZero, if_pos hpos.le, wholePart_eq_floor]
    | negative =>
      have hneg : ¬ 0 ≤ -((m : ℚ) * 2 ^ e) := by linarith
      change clamp lo hi (-wholePart m e) = clamp lo hi (towardZero (-(m * 2 ^ e)))
      rw [towardZero, if_neg hneg, Int.ceil_neg, wholePart_eq_floor]

namespace Single

def toRat (x : Single) : ℚ := ratOf x.unpack

theorem truncate_eq {lo hi : ℤ} (h : lo ≤ 0) (h' : 0 ≤ hi) {x : Single} (hx : x.isFinite) :
    x.truncate lo hi = clamp lo hi (towardZero x.toRat) := saturate_wholePart h h' hx

theorem pos_iff {x : Single} (hx : x.isFinite) : 0 < x ↔ 0 < x.toRat := by
  have hcompare : 0 < x ↔ UnpackedFloat.lt (.zero .positive) x.unpack = true := decide_eq_true_iff
  have hfinite : x.unpack.isFinite := hx
  rw [hcompare, toRat]
  cases hu : x.unpack with
  | infinity s =>
    rw [hu] at hfinite
    cases hfinite
  | notANumber =>
    rw [hu] at hfinite
    cases hfinite
  | zero s =>
    refine iff_of_false ?_ (lt_irrefl 0)
    cases s <;> exact Bool.false_ne_true
  | finite s m e hm =>
    have hpos : 0 < (m : ℚ) * 2 ^ e := by positivity
    cases s with
    | positive => exact iff_of_true rfl hpos
    | negative => exact iff_of_false Bool.false_ne_true (neg_nonpos.2 hpos.le).not_gt

end Single

end LoadBench
