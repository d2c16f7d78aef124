import LoadBench.Proofs.Position
import LoadBench.Proofs.Rational
import Mathlib.Algebra.Order.Ring.Nat
import Mathlib.Tactic.Linarith

/-!
# Products that vanish

The product of two positive singles is not always positive. Single precision ends at `2 ^ (-149)`,
and a product of at most half of that is rounded to zero: the tie goes to zero, whose mantissa is
even. Every other product of positive numbers stays positive, up to infinity.
-/

namespace LoadBench

namespace Rounding

open Float.Model (Format UnpackedFloat totalExponent)
open Float.Model.UnpackedFloat (Accuracy ExtendedMantissa roundWithAccuracy shiftToTargetExponent)

/-! ## Rounding to zero -/

/-- The mantissa in quarters, with one more for what lies below them. -/
def quarters (em : ExtendedMantissa) : ℕ :=
  4 * em.mantissa + 2 * em.roundBit.toNat + em.stickyBit.toNat

/-- A mantissa is rounded to zero up to a half. -/
theorem roundedMantissa_eq_zero {em : ExtendedMantissa} :
    em.roundedMantissa = 0 ↔ quarters em ≤ 2 := by
  obtain ⟨m, r, s⟩ := em
  cases r <;> cases s <;>
    simp only [ExtendedMantissa.roundedMantissa, ExtendedMantissa.accuracy,
      Float.Model.UnpackedFloat.Accuracy.roundToNearestEven, quarters, Bool.toNat_true,
      Bool.toNat_false] <;>
    omega

/-- A shift halves the mantissa, and comparisons with whole halves see nothing of what it drops. -/
theorem quarters_shiftRightOne_le {em : ExtendedMantissa} {k : ℕ} :
    quarters em.shiftRightOne ≤ 2 * k ↔ quarters em ≤ 4 * k := by
  obtain ⟨m, r, s⟩ := em
  rcases Nat.mod_two_eq_zero_or_one m with hm | hm <;> cases r <;> cases s <;>
    simp only [ExtendedMantissa.shiftRightOne, quarters, hm, Bool.toNat_true, Bool.toNat_false,
      Bool.or_self, Bool.or_true, Bool.or_false, bne_self_eq_false, Nat.reduceBneDiff] <;>
    omega

theorem quarters_shiftRight_le {em : ExtendedMantissa} {k : ℕ} (n : ℕ) :
    quarters (em >>> n) ≤ 2 * k ↔ quarters em ≤ 2 ^ n * (2 * k) := by
  change quarters (n.repeat ExtendedMantissa.shiftRightOne em) ≤ 2 * k ↔ _
  induction n generalizing k with
  | zero => rw [pow_zero, one_mul]; rfl
  | succ n ih =>
    have hfactor : 2 ^ (n + 1) * (2 * k) = 2 ^ n * (2 * (2 * k)) := by ring
    have hfour : 4 * k = 2 * (2 * k) := by ring
    rw [Nat.repeat, quarters_shiftRightOne_le, hfour, ih, hfactor]

/-- An exact mantissa that is shifted is rounded to zero up to a half. -/
theorem rounded_shift_eq_zero (m n : ℕ) :
    (ExtendedMantissa.mk m false false >>> n).roundedMantissa = 0 ↔ 2 * m ≤ 2 ^ n := by
  have hquarters : quarters (ExtendedMantissa.mk m false false >>> n) ≤ 2 ↔ 4 * m ≤ 2 ^ n * 2 :=
    quarters_shiftRight_le (k := 1) n
  rw [roundedMantissa_eq_zero, hquarters]
  omega

theorem mantissa_shift (em : ExtendedMantissa) (n : ℕ) :
    (em >>> n).mantissa = em.mantissa / 2 ^ n := by
  change (n.repeat ExtendedMantissa.shiftRightOne em).mantissa = _
  induction n with
  | zero => simp [Nat.repeat]
  | succ n ih =>
    rw [Nat.repeat, ExtendedMantissa.shiftRightOne, ih, Nat.div_div_eq_div_mul, pow_succ]

/-! ## Rounding to single precision -/

def shiftOf (m : ℕ) (e : ℤ) : ℕ := (max ((m.log2 : ℤ) - 23) (-149 - e)).toNat

theorem ofMantissaAndAccuracy_exact (m : ℕ) :
    ExtendedMantissa.ofMantissaAndAccuracy m .exact = ⟨m, false, false⟩ := rfl

theorem shiftToTargetExponent_eq (m : ℕ) (e : ℤ) (a : Accuracy) :
    shiftToTargetExponent .binary32 m e a =
      (ExtendedMantissa.ofMantissaAndAccuracy m a >>> shiftOf m e, e + shiftOf m e) := by
  have hshift : (Format.targetExponent .binary32 (totalExponent m e) - e).toNat = shiftOf m e := by
    unfold Format.targetExponent totalExponent shiftOf
    change (max ((m.log2 : ℤ) + 1 + e - 24) (-149) - e).toNat = _
    omega
  unfold shiftToTargetExponent Float.Model.UnpackedFloat.shiftToExponent
  dsimp only
  rw [hshift]

/-- Half of the least positive single, and less, is shifted out. -/
theorem shift_vanishes {m : ℕ} (hm : 0 < m) (e : ℤ) :
    2 * m ≤ 2 ^ shiftOf m e ↔ (m : ℚ) * 2 ^ e ≤ 2 ^ (-150 : ℤ) := by
  have hlog : 2 ^ m.log2 ≤ m := Nat.log2_self_le hm.ne'
  have hbound (n : ℕ) (hn : -150 - e = n) :
      (m : ℚ) * 2 ^ e ≤ 2 ^ (-150 : ℤ) ↔ m ≤ 2 ^ n := by
    have hexponent : (-150 : ℤ) = n + e := by omega
    rw [hexponent, zpow_add₀ two_ne_zero, zpow_natCast]
    rw [mul_le_mul_iff_left₀ (zpow_pos two_pos e)]
    exact_mod_cast Iff.rfl
  constructor
  · intro h
    -- the mantissa does not vanish by the shift that makes it fit, so the exponent was too small
    have hlt : 2 ^ (m.log2 + 1) ≤ 2 ^ shiftOf m e := by
      rw [pow_succ]
      omega
    have hle : m.log2 + 1 ≤ shiftOf m e := (Nat.pow_le_pow_iff_right one_lt_two).1 hlt
    have hexact : (shiftOf m e : ℤ) = -149 - e := by
      unfold shiftOf at hle ⊢
      omega
    obtain ⟨n, hn⟩ : ∃ n : ℕ, shiftOf m e = n + 1 := ⟨shiftOf m e - 1, by omega⟩
    rw [hbound n (by omega)]
    rw [hn, pow_succ] at h
    omega
  · intro h
    have hexponent : e ≤ -150 := by
      by_contra hlarge
      have hone : (1 : ℚ) ≤ m := by exact_mod_cast hm
      have hless : (2 : ℚ) ^ (-150 : ℤ) < 2 ^ e := zpow_lt_zpow_right₀ one_lt_two (by omega)
      have hpos : (0 : ℚ) < 2 ^ e := zpow_pos two_pos e
      nlinarith
    obtain ⟨n, hn⟩ := Int.eq_ofNat_of_zero_le (show 0 ≤ -150 - e by omega)
    have hmantissa := (hbound n hn).1 h
    have hshift : n + 1 ≤ shiftOf m e := by
      unfold shiftOf
      omega
    have hpow : 2 ^ (n + 1) ≤ 2 ^ shiftOf m e := Nat.pow_le_pow_right two_pos hshift
    rw [pow_succ] at hpow
    omega

/-- The number with a mantissa and an exponent, a zero where the mantissa is. -/
def signed (s : UnpackedFloat.Sign) (m : ℕ) (e : ℤ) : UnpackedFloat :=
  if h : m = 0 then .zero s else .finite s m e (Nat.pos_of_ne_zero h)

/-- Rounding shifts twice: once for the bits that there is no room for, and once more where rounding
up has made another one. -/
theorem roundWithAccuracy_eq (s : UnpackedFloat.Sign) (m : ℕ) (e : ℤ) (a : Accuracy) :
    roundWithAccuracy .binary32 s m e a =
      let r := (ExtendedMantissa.ofMantissaAndAccuracy m a >>> shiftOf m e).roundedMantissa
      let e' := e + (shiftOf m e : ℤ)
      signed s (r / 2 ^ shiftOf r e') (e' + shiftOf r e') := by
  change signed s
    (shiftToTargetExponent .binary32 (shiftToTargetExponent .binary32 m e a).1.roundedMantissa
      (shiftToTargetExponent .binary32 m e a).2 .exact).1.mantissa
    (shiftToTargetExponent .binary32 (shiftToTargetExponent .binary32 m e a).1.roundedMantissa
      (shiftToTargetExponent .binary32 m e a).2 .exact).2 = _
  simp only [shiftToTargetExponent_eq, ofMantissaAndAccuracy_exact, mantissa_shift]

/-- Where the exponent is not too small, a shift only cuts what does not fit. -/
theorem shiftOf_of_le {e : ℤ} (h : -149 ≤ e) (m : ℕ) : shiftOf m e = m.log2 - 23 := by
  unfold shiftOf
  omega

theorem cut_ne_zero {m : ℕ} (h : m ≠ 0) : m / 2 ^ (m.log2 - 23) ≠ 0 := by
  have hlog : 2 ^ (m.log2 - 23) ≤ m :=
    (Nat.pow_le_pow_right two_pos (Nat.sub_le _ _)).trans (Nat.log2_self_le h)
  exact (Nat.div_pos hlog (Nat.two_pow_pos _)).ne'

/-- What a positive number is rounded to: a zero up to half of the least positive single, and
otherwise something that can be packed. -/
theorem round_cases {m : ℕ} (hm : 0 < m) (e : ℤ) (s : UnpackedFloat.Sign) :
    (m : ℚ) * 2 ^ e ≤ 2 ^ (-150 : ℤ) ∧ roundWithAccuracy .binary32 s m e .exact = .zero s ∨
      2 ^ (-150 : ℤ) < (m : ℚ) * 2 ^ e ∧ ∃ m' e' h, m' < 2 ^ 24 ∧ -149 ≤ e' ∧
        roundWithAccuracy .binary32 s m e .exact = .finite s m' e' h := by
  rw [roundWithAccuracy_eq, ofMantissaAndAccuracy_exact]
  dsimp only
  generalize hr : (ExtendedMantissa.mk m false false >>> shiftOf m e).roundedMantissa = r
  generalize he₁ : e + (shiftOf m e : ℤ) = e₁
  have hleast : -149 ≤ e₁ := by
    rw [← he₁, shiftOf]
    omega
  have hvanishes : r = 0 ↔ (m : ℚ) * 2 ^ e ≤ 2 ^ (-150 : ℤ) := by
    rw [← hr, rounded_shift_eq_zero, shift_vanishes hm]
  rw [shiftOf_of_le hleast]
  by_cases hzero : r = 0
  · refine .inl ⟨hvanishes.1 hzero, ?_⟩
    rw [hzero, Nat.zero_div]
    rfl
  · have hnonzero : ¬ (m : ℚ) * 2 ^ e ≤ 2 ^ (-150 : ℤ) := fun hsmall => hzero (hvanishes.2 hsmall)
    have hpos := cut_ne_zero hzero
    have hfits : r / 2 ^ (r.log2 - 23) < 2 ^ 24 := by
      rw [Nat.div_lt_iff_lt_mul (Nat.two_pow_pos _), ← pow_add]
      exact Nat.lt_log2_self.trans_le (Nat.pow_le_pow_right two_pos (by omega))
    refine .inr ⟨not_le.1 hnonzero, _, _, Nat.pos_of_ne_zero hpos, hfits, ?_, dif_neg hpos⟩
    omega

/-! ## Packing -/

theorem unpackSign_packComponents {f : Format} (s : UnpackedFloat.Sign)
    (exponent : BitVec f.exponentBits) (mantissa : BitVec f.mantissaBitsWithoutImplicit) :
    UnpackedFloat.unpackSign (UnpackedFloat.packComponents f s exponent mantissa) = s.toBitVec := by
  ext i hi
  obtain rfl : i = 0 := by omega
  delta UnpackedFloat.unpackSign
  simp [UnpackedFloat.packComponents, BitVec.getLsbD_eq_getElem, BitVec.getLsbD_append,
    BitVec.getElem_append]

/-- Without the sign bit, but with another one, bits are a positive number, if they are a number at
all. -/
theorem zero_lt_unpack {b : BitVec 32}
    (hsign : @UnpackedFloat.unpackSign .binary32 b = 0#1)
    (hset : @UnpackedFloat.unpackExponent .binary32 b = 0#8 →
      @UnpackedFloat.unpackMantissa .binary32 b ≠ 0#23)
    (hnumber : @UnpackedFloat.unpackExponent .binary32 b = -1#8 →
      @UnpackedFloat.unpackMantissa .binary32 b = 0#23) :
    UnpackedFloat.lt (.zero .positive) (UnpackedFloat.unpack .binary32 b) = true := by
  unfold UnpackedFloat.unpack
  dsimp only
  by_cases hlast : @UnpackedFloat.unpackExponent .binary32 b = -1#8
  · rw [if_pos hlast, if_pos (hnumber hlast), hsign]
    rfl
  · rw [if_neg hlast]
    by_cases hfirst : @UnpackedFloat.unpackExponent .binary32 b = 0#8
    · rw [if_pos hfirst, dif_neg (hset hfirst), hsign]
      rfl
    · rw [if_neg hfirst, hsign]
      rfl

theorem zero_lt_packComponents {exponent : BitVec 8} {mantissa : BitVec 23}
    (hset : exponent = 0#8 → mantissa ≠ 0#23) (hnumber : exponent = -1#8 → mantissa = 0#23) :
    UnpackedFloat.lt (.zero .positive) (UnpackedFloat.unpack .binary32
      (UnpackedFloat.packComponents .binary32 .positive exponent mantissa)) = true := by
  refine zero_lt_unpack (unpackSign_packComponents _ _ _) ?_ ?_
  · rw [UnpackedFloat.unpackExponent_packComponents, UnpackedFloat.unpackMantissa_packComponents]
    exact hset
  · rw [UnpackedFloat.unpackExponent_packComponents, UnpackedFloat.unpackMantissa_packComponents]
    exact hnumber

/-- What rounding gives for a positive number stays positive when it is packed, where its exponent
is too large as an infinity. -/
theorem zero_lt_pack {m : ℕ} {e : ℤ} (hm : 0 < m) (hfits : m < 2 ^ 24) (hleast : -149 ≤ e) :
    UnpackedFloat.lt (.zero .positive) (UnpackedFloat.unpack .binary32
      (UnpackedFloat.pack .binary32 (.finite .positive m e hm))) = true := by
  unfold UnpackedFloat.pack
  dsimp only
  change UnpackedFloat.lt _ (UnpackedFloat.unpack .binary32
    (if 2 ^ 8 ≤ (e + 127 + 23).toNat + 1 then _ else if m.log2 + 1 = 24 then _ else _)) = true
  split
  · exact zero_lt_packComponents nofun fun _ => rfl
  · next hexponent =>
    have hbiased : (BitVec.ofNat 8 (e + 127 + 23).toNat).toNat = (e + 127 + 23).toNat := by
      rw [BitVec.toNat_ofNat, Nat.mod_eq_of_lt (by omega)]
    split
    · refine zero_lt_packComponents (fun hzero => ?_) fun hlast => ?_
      · have hnone : (BitVec.ofNat 8 (e + 127 + 23).toNat).toNat = 0 := congrArg BitVec.toNat hzero
        omega
      · have hones : (BitVec.ofNat 8 (e + 127 + 23).toNat).toNat = 255 := congrArg BitVec.toNat hlast
        omega
    · next hlog =>
      refine zero_lt_packComponents (fun _ hzero => ?_) nofun
      have hlt : m < 2 ^ 23 := by
        have hlog' : m.log2 < 24 := (Nat.log2_lt hm.ne').2 hfits
        exact (Nat.log2_lt hm.ne').1 (by omega)
      have hmantissa := congrArg BitVec.toNat hzero
      rw [BitVec.toNat_ofNat, Nat.mod_eq_of_lt hlt, BitVec.toNat_zero] at hmantissa
      omega

end Rounding

/-! ## Products of singles -/

namespace Single

open Float.Model (UnpackedFloat)
open Float.Model.UnpackedFloat (roundWithAccuracy)

theorem unpack_of_pos {x : Single} (hpos : 0 < x) (hfinite : x.isFinite) :
    ∃ m e h, x.unpack = .finite .positive m e h := by
  have hcompare : UnpackedFloat.lt (.zero .positive) x.unpack = true := of_decide_eq_true hpos
  have hnumber : x.unpack.isFinite := hfinite
  cases hx : x.unpack with
  | infinity s =>
    rw [hx] at hnumber
    cases hnumber
  | notANumber =>
    rw [hx] at hnumber
    cases hnumber
  | zero s =>
    rw [hx] at hcompare
    cases s <;> cases hcompare
  | finite s m e h =>
    rw [hx] at hcompare
    cases s with
    | negative => cases hcompare
    | positive => exact ⟨m, e, h, rfl⟩

theorem toRat_of_unpack {x : Single} {m : ℕ} {e : ℤ} {h : 0 < m}
    (hx : x.unpack = .finite .positive m e h) : x.toRat = m * 2 ^ e := by
  rw [toRat, hx]
  rfl

/-- The product of two positive numbers is positive exactly if it is more than half of the least
positive single. -/
theorem mul_pos_iff {x y : Single} (hx : 0 < x) (hx' : x.isFinite) (hy : 0 < y)
    (hy' : y.isFinite) : 0 < x * y ↔ (2 : ℚ) ^ (-150 : ℤ) < x.toRat * y.toRat := by
  obtain ⟨m, e, hm, hux⟩ := unpack_of_pos hx hx'
  obtain ⟨m', e', hm', huy⟩ := unpack_of_pos hy hy'
  have hproduct : x.toRat * y.toRat = ((m * m' : ℕ) : ℚ) * 2 ^ (e + e') := by
    rw [toRat_of_unpack hux, toRat_of_unpack huy, Nat.cast_mul, zpow_add₀ two_ne_zero]
    ring
  have hcompare : 0 < x * y ↔ UnpackedFloat.lt (.zero .positive) (x * y).unpack = true :=
    decide_eq_true_iff
  rw [hcompare, unpack_mul, hux, huy, hproduct]
  change UnpackedFloat.lt (.zero .positive) (UnpackedFloat.unpack .binary32
    (UnpackedFloat.pack .binary32 (roundWithAccuracy .binary32 .positive (m * m') (e + e') .exact))) =
      true ↔ _
  rcases Rounding.round_cases (Nat.mul_pos hm hm') (e + e') .positive with
    ⟨hsmall, hround⟩ | ⟨hlarge, m'', e'', h, hfits, hleast, hround⟩
  · rw [hround, unpack_pack_zero]
    exact iff_of_false Bool.false_ne_true hsmall.not_gt
  · rw [hround]
    exact iff_of_true (Rounding.zero_lt_pack h hfits hleast) hlarge

end Single

end LoadBench
