import LoadBench.Proofs.Underflow

/-!
# Quotients that overflow

The quotient of two singles is a number or an infinity as the exact quotient lies below or above the
middle between the largest single and the power of two after it. A tie goes to the power of two,
whose mantissa is even, and is an infinity, too. Of a whole number it is enough here that rounding
at most doubles it.
-/

namespace LoadBench

namespace Rounding

open Float.Model (Format UnpackedFloat totalExponent)
open Float.Model.UnpackedFloat (Accuracy ExtendedMantissa accuracyOfFraction roundWithAccuracy)

/-! ## Rounding up to a power of two -/

/-- A mantissa is rounded to an even number or further from a half below it. -/
theorem le_roundedMantissa (em : ExtendedMantissa) {k : ℕ} :
    2 * k ≤ em.roundedMantissa ↔ 8 * k ≤ quarters em + 2 := by
  obtain ⟨m, r, s⟩ := em
  cases r <;> cases s <;>
    simp only [ExtendedMantissa.roundedMantissa, ExtendedMantissa.accuracy,
      Accuracy.roundToNearestEven, quarters, Bool.toNat_true, Bool.toNat_false] <;>
    omega

theorem roundedMantissa_le (em : ExtendedMantissa) : em.roundedMantissa ≤ em.mantissa + 1 := by
  obtain ⟨m, r, s⟩ := em
  cases r <;> cases s <;>
    simp only [ExtendedMantissa.roundedMantissa, ExtendedMantissa.accuracy,
      Accuracy.roundToNearestEven] <;>
    omega

theorem le_quarters_shiftRightOne {em : ExtendedMantissa} {k : ℕ} :
    2 * k ≤ quarters em.shiftRightOne ↔ 4 * k ≤ quarters em := by
  obtain ⟨m, r, s⟩ := em
  rcases Nat.mod_two_eq_zero_or_one m with hm | hm <;> cases r <;> cases s <;>
    simp only [ExtendedMantissa.shiftRightOne, quarters, hm, Bool.toNat_true, Bool.toNat_false,
      Bool.or_self, Bool.or_true, Bool.or_false, bne_self_eq_false, Nat.reduceBneDiff] <;>
    omega

theorem le_quarters_shiftRight {em : ExtendedMantissa} {k : ℕ} (n : ℕ) :
    2 * k ≤ quarters (em >>> n) ↔ 2 ^ n * (2 * k) ≤ quarters em := by
  change 2 * k ≤ quarters (n.repeat ExtendedMantissa.shiftRightOne em) ↔ _
  induction n generalizing k with
  | zero => rw [pow_zero, one_mul]; rfl
  | succ n ih =>
    have hfactor : 2 ^ (n + 1) * (2 * k) = 2 ^ n * (2 * (2 * k)) := by ring
    have hfour : 4 * k = 2 * (2 * k) := by ring
    rw [Nat.repeat, le_quarters_shiftRightOne, hfour, ih, hfactor]

/-- The mantissa of a fraction, with what lies below it. -/
def fraction (n d : ℕ) : ExtendedMantissa :=
  .ofMantissaAndAccuracy (n / d) (accuracyOfFraction (n % d) d)

theorem fraction_mantissa (n d : ℕ) : (fraction n d).mantissa = n / d := by
  unfold fraction
  cases accuracyOfFraction (n % d) d with
  | exact => rfl
  | inexact o => cases o <;> rfl

/-- A fraction has as many halves as its mantissa and its round bit say. -/
theorem quarters_fraction {n d : ℕ} (hd : 0 < d) : quarters (fraction n d) / 2 = 2 * n / d := by
  have hhalves : 2 * n / d = 2 * (n / d) + 2 * (n % d) / d := by
    calc 2 * n / d = (2 * (n % d) + d * (2 * (n / d))) / d := by
          congr 1
          rw [Nat.mul_left_comm, ← Nat.mul_add, Nat.mod_add_div]
      _ = 2 * (n / d) + 2 * (n % d) / d := by rw [Nat.add_mul_div_left _ _ hd, Nat.add_comm]
  have hrest : n % d < d := Nat.mod_lt n hd
  rw [hhalves, fraction, accuracyOfFraction]
  split
  · next hzero =>
    rw [hzero, Nat.mul_zero, Nat.zero_div]
    simp only [ExtendedMantissa.ofMantissaAndAccuracy, quarters, Bool.toNat_false]
    omega
  · rcases Nat.lt_trichotomy (2 * (n % d)) d with hlt | heq | hgt
    · rw [Nat.compare_eq_lt.2 hlt, Nat.div_eq_of_lt hlt]
      simp only [ExtendedMantissa.ofMantissaAndAccuracy, quarters, Bool.toNat_true, Bool.toNat_false]
      omega
    · rw [Nat.compare_eq_eq.2 heq, heq, Nat.div_self hd]
      simp only [ExtendedMantissa.ofMantissaAndAccuracy, quarters, Bool.toNat_true, Bool.toNat_false]
      omega
    · have hone : 2 * (n % d) / d = 1 := Nat.div_eq_of_lt_le (by omega) (by omega)
      rw [Nat.compare_eq_gt.2 hgt, hone]
      simp only [ExtendedMantissa.ofMantissaAndAccuracy, quarters, Bool.toNat_true]
      omega

/-- Whole halves of a shifted fraction are whole halves of the fraction. -/
theorem le_quarters_fraction_shiftRight {n d : ℕ} (hd : 0 < d) (j k : ℕ) :
    2 * k ≤ quarters (fraction n d >>> j) ↔ 2 ^ j * k * d ≤ 2 * n := by
  have hpower : 2 ^ j * (2 * k) = 2 * (2 ^ j * k) := Nat.mul_left_comm _ _ _
  rw [le_quarters_shiftRight, hpower, ← Nat.le_div_iff_mul_le hd, ← quarters_fraction hd]
  omega

/-! ## Packing -/

/-- What is unpacked of a number that was packed. -/
def packed (u : UnpackedFloat) : UnpackedFloat :=
  UnpackedFloat.unpack .binary32 (UnpackedFloat.pack .binary32 u)

theorem packed_zero (s : UnpackedFloat.Sign) : packed (.zero s) = .zero s :=
  Single.unpack_pack_zero s

theorem unpack_packedInfinity (s : UnpackedFloat.Sign) :
    UnpackedFloat.unpack .binary32 (UnpackedFloat.packedInfinity .binary32 s) = .infinity s := by
  cases s <;> rfl

/-- Only the last exponent stands for infinities and for what is no number. -/
theorem isFinite_unpack {b : BitVec 32} (h : @UnpackedFloat.unpackExponent .binary32 b ≠ -1#8) :
    (UnpackedFloat.unpack .binary32 b).isFinite = true := by
  unfold UnpackedFloat.unpack
  dsimp only
  rw [if_neg h]
  by_cases hfirst : @UnpackedFloat.unpackExponent .binary32 b = 0#8
  · rw [if_pos hfirst]
    by_cases hzero : @UnpackedFloat.unpackMantissa .binary32 b = 0#23
    · rw [dif_pos hzero]
      rfl
    · rw [dif_neg hzero]
      rfl
  · rw [if_neg hfirst]
    rfl

theorem isFinite_unpack_packComponents {s : UnpackedFloat.Sign} {exponent : BitVec 8}
    {mantissa : BitVec 23} (h : exponent ≠ -1#8) :
    (UnpackedFloat.unpack .binary32
      (UnpackedFloat.packComponents .binary32 s exponent mantissa)).isFinite = true := by
  refine isFinite_unpack ?_
  rwa [UnpackedFloat.unpackExponent_packComponents]

theorem pack_finite (s : UnpackedFloat.Sign) {m : ℕ} (e : ℤ) (h : 0 < m) :
    UnpackedFloat.pack .binary32 (.finite s m e h) =
      if 2 ^ 8 ≤ (e + 127 + 23).toNat + 1 then UnpackedFloat.packedInfinity .binary32 s
      else if m.log2 + 1 = 24 then
        UnpackedFloat.packComponents .binary32 s (BitVec.ofNat 8 (e + 127 + 23).toNat)
          (BitVec.ofNat 23 m)
      else UnpackedFloat.packComponents .binary32 s 0#8 (BitVec.ofNat 23 m) := rfl

/-- What rounding gives for a number is one when it is packed, up to the largest exponent, and above
that an infinity. -/
theorem packed_cases {s : UnpackedFloat.Sign} {m : ℕ} {e : ℤ} (hm : 0 < m) (hleast : -149 ≤ e) :
    e < 105 ∧ (packed (.finite s m e hm)).isFinite = true ∨
      105 ≤ e ∧ packed (.finite s m e hm) = .infinity s := by
  rw [packed, pack_finite]
  split
  · next hlarge => exact .inr ⟨by omega, unpack_packedInfinity s⟩
  · next hsmall =>
    refine .inl ⟨by omega, ?_⟩
    split
    · refine isFinite_unpack_packComponents fun hlast => ?_
      have hbiased := congrArg BitVec.toNat hlast
      rw [BitVec.toNat_ofNat, Nat.mod_eq_of_lt (by omega)] at hbiased
      have hones : (-1#8).toNat = 255 := rfl
      omega
    · exact isFinite_unpack_packComponents (by decide)

/-- The bits of a number that is not among the smallest. -/
theorem unpack_of_bits {b : BitVec 32} {s : UnpackedFloat.Sign} {m : ℕ} {e : ℤ} (h : 0 < m)
    (hsign : @UnpackedFloat.unpackSign .binary32 b = s.toBitVec)
    (hlast : @UnpackedFloat.unpackExponent .binary32 b ≠ -1#8)
    (hfirst : @UnpackedFloat.unpackExponent .binary32 b ≠ 0#8)
    (hexponent : ((@UnpackedFloat.unpackExponent .binary32 b).toNat : ℤ) = e + 150)
    (hmantissa : 2 ^ 23 + (@UnpackedFloat.unpackMantissa .binary32 b).toNat = m) :
    UnpackedFloat.unpack .binary32 b = .finite s m e h := by
  unfold UnpackedFloat.unpack
  dsimp only
  rw [if_neg hlast, if_neg hfirst]
  have hsign' : UnpackedFloat.Sign.ofBitVec (@UnpackedFloat.unpackSign .binary32 b) = s := by
    rw [hsign]
    cases s <;> rfl
  have hmantissa' : (1#1 ++ @UnpackedFloat.unpackMantissa .binary32 b).toNat = m := by
    rw [← hmantissa, BitVec.toNat_append, ← Nat.shiftLeft_add_eq_or_of_lt (BitVec.isLt _)]
    rfl
  have hexponent' : ((@UnpackedFloat.unpackExponent .binary32 b).toNat : ℤ) - (127 + 23) = e := by
    omega
  subst hsign' hmantissa' hexponent'
  rfl

/-- A number with all its bits is what was packed. -/
theorem packed_normal {s : UnpackedFloat.Sign} {m : ℕ} {e : ℤ} (h : 0 < m) (hlow : 2 ^ 23 ≤ m)
    (hfits : m < 2 ^ 24) (hleast : -149 ≤ e) (hmost : e < 105) :
    packed (.finite s m e h) = .finite s m e h := by
  have hlog : m.log2 = 23 := (Nat.log2_eq_iff h.ne').2 ⟨hlow, hfits⟩
  have hbiased : (BitVec.ofNat 8 (e + 127 + 23).toNat).toNat = (e + 127 + 23).toNat := by
    rw [BitVec.toNat_ofNat, Nat.mod_eq_of_lt (by omega)]
  rw [packed, pack_finite, if_neg (by omega), if_pos (by omega)]
  refine unpack_of_bits h (unpackSign_packComponents _ _ _) ?_ ?_ ?_ ?_
  · rw [UnpackedFloat.unpackExponent_packComponents]
    intro hlast
    have hones : (BitVec.ofNat 8 (e + 127 + 23).toNat).toNat = 255 := congrArg BitVec.toNat hlast
    omega
  · rw [UnpackedFloat.unpackExponent_packComponents]
    intro hfirst
    have hnone : (BitVec.ofNat 8 (e + 127 + 23).toNat).toNat = 0 := congrArg BitVec.toNat hfirst
    omega
  · rw [UnpackedFloat.unpackExponent_packComponents]
    omega
  · rw [UnpackedFloat.unpackMantissa_packComponents, BitVec.toNat_ofNat]
    change 2 ^ 23 + m % 2 ^ 23 = m
    omega

theorem abs_ratOf (s : UnpackedFloat.Sign) {m : ℕ} {e : ℤ} (h : 0 < m) :
    |ratOf (.finite s m e h)| = m * 2 ^ e := by
  have hpos : (0 : ℚ) ≤ m * 2 ^ e := by positivity
  cases s with
  | positive => exact abs_of_nonneg hpos
  | negative => exact (abs_neg _).trans (abs_of_nonneg hpos)

/-! ## Rounding up to infinity -/

/-- Fractions are compared with multiples of half of the last place that is kept. -/
theorem fraction_lt_iff {n d : ℕ} (hd : 0 < d) (e : ℤ) (j k : ℕ) :
    (n : ℚ) / d * 2 ^ e < k * 2 ^ (e + j - 1) ↔ quarters (fraction n d >>> j) < 2 * k := by
  have hscale : (k : ℚ) * 2 ^ (e + j - 1) = ((2 ^ j * k : ℕ) : ℚ) / 2 * 2 ^ e := by
    rw [add_sub_assoc, zpow_add₀ two_ne_zero, zpow_sub_one₀ two_ne_zero, zpow_natCast]
    push_cast
    ring
  have hd' : (0 : ℚ) < d := by exact_mod_cast hd
  rw [hscale, mul_lt_mul_iff_left₀ (zpow_pos two_pos e), div_lt_div_iff₀ hd' two_pos, ← not_le,
    ← not_le, le_quarters_fraction_shiftRight hd, mul_comm (n : ℚ) 2]
  exact_mod_cast Iff.rfl

/-- Rounding makes one more bit for the last half below a power of two. -/
theorem shiftOf_roundedMantissa {em : ExtendedMantissa} (hcut : em.mantissa < 2 ^ 24) {e : ℤ}
    (hleast : -149 ≤ e) :
    shiftOf em.roundedMantissa e = if quarters em < 2 * (2 ^ 25 - 1) then 0 else 1 := by
  have hrounded := roundedMantissa_le em
  have hcarry : 2 * 2 ^ 23 ≤ em.roundedMantissa ↔ 8 * 2 ^ 23 ≤ quarters em + 2 :=
    le_roundedMantissa em
  split
  · next hbelow =>
    have hlog : em.roundedMantissa.log2 < 24 := by
      rcases Nat.eq_zero_or_pos em.roundedMantissa with hzero | hpos
      · rw [hzero]
        decide
      · exact (Nat.log2_lt hpos.ne').2 (by omega)
    unfold shiftOf
    omega
  · next habove =>
    have hpower : em.roundedMantissa = 2 ^ 24 := by omega
    have hlog : em.roundedMantissa.log2 = 24 := by
      rw [hpower]
      decide
    unfold shiftOf
    omega

section

variable {n d : ℕ} {e : ℤ}

/-- The mantissa that is kept fits, -/
theorem mantissa_fraction_shift_lt : (fraction n d >>> shiftOf (n / d) e).mantissa < 2 ^ 24 := by
  rw [mantissa_shift, fraction_mantissa, Nat.div_lt_iff_lt_mul (Nat.two_pow_pos _), ← pow_add]
  refine Nat.lt_log2_self.trans_le (Nat.pow_le_pow_right two_pos ?_)
  unfold shiftOf
  omega

/-- and it has all its bits if there were enough and the exponent is not the least. -/
theorem le_mantissa_fraction_shift (hready : e ≤ -149 ∨ 2 ^ 23 ≤ n / d)
    (hlarge : -149 < e + (shiftOf (n / d) e : ℤ)) :
    2 ^ 23 ≤ (fraction n d >>> shiftOf (n / d) e).mantissa := by
  have hlog : (n / d).log2 = 23 + shiftOf (n / d) e := by
    have hlong : e ≤ -149 ∨ 23 ≤ (n / d).log2 :=
      hready.imp_right fun h => (Nat.le_log2 (by omega)).2 h
    unfold shiftOf at hlarge ⊢
    omega
  have hnonzero : n / d ≠ 0 := by
    intro hzero
    rw [hzero, Nat.log2_zero] at hlog
    omega
  rw [mantissa_shift, fraction_mantissa, Nat.le_div_iff_mul_le (Nat.two_pow_pos _), ← pow_add,
    ← hlog]
  exact Nat.log2_self_le hnonzero

/-- A quotient that is given with enough bits, or as small as it may be, is rounded to an exponent
that is too large exactly if it lies above the largest single by half of its last place or more. -/
theorem fraction_lt_overflow_iff (hd : 0 < d) (hready : e ≤ -149 ∨ 2 ^ 23 ≤ n / d) :
    let r := (fraction n d >>> shiftOf (n / d) e).roundedMantissa
    let e' := e + (shiftOf (n / d) e : ℤ)
    (n : ℚ) / d * 2 ^ e < 2 ^ 128 - 2 ^ 103 ↔ e' + shiftOf r e' < 105 := by
  intro r e'
  have hcut := mantissa_fraction_shift_lt (n := n) (d := d) (e := e)
  have henough := le_mantissa_fraction_shift hready
  have hcompare := fraction_lt_iff (n := n) hd e (shiftOf (n / d) e)
  have hshift : shiftOf r e' = _ :=
    shiftOf_roundedMantissa hcut (by unfold e' shiftOf; omega)
  generalize fraction n d >>> shiftOf (n / d) e = em at hcut henough hcompare hshift
  have hbits := Bool.toNat_le em.roundBit
  have hbits' := Bool.toNat_le em.stickyBit
  rcases lt_trichotomy e' 104 with hsmall | hlast | hlarge
  · refine iff_of_true ?_ ?_
    · have hless := (hcompare (2 ^ 25)).2 (by unfold quarters; omega)
      have hpower : (2 : ℚ) ^ (e' - 1) ≤ 2 ^ (102 : ℤ) := zpow_le_zpow_right₀ one_le_two (by omega)
      norm_num at hless hpower ⊢
      linarith
    · split at hshift <;> omega
  · have hbound : (2 : ℚ) ^ 128 - 2 ^ 103 = ((2 ^ 25 - 1 : ℕ) : ℚ) * 2 ^ (e' - 1) := by
      rw [hlast]
      norm_num
    rw [hbound, hcompare, hshift]
    split <;> omega
  · refine iff_of_false (not_lt.2 ?_) (by omega)
    have hfull := henough (by omega)
    have hless := not_lt.1 (mt (hcompare (2 ^ 24)).1 (by unfold quarters; omega))
    have hpower : (2 : ℚ) ^ (104 : ℤ) ≤ 2 ^ (e' - 1) := zpow_le_zpow_right₀ one_le_two (by omega)
    norm_num at hless hpower ⊢
    linarith

/-- Packed it is a number, or an infinity if it lies too far above. -/
theorem packed_fraction_cases (hd : 0 < d) (hready : e ≤ -149 ∨ 2 ^ 23 ≤ n / d)
    (s : UnpackedFloat.Sign) :
    (n : ℚ) / d * 2 ^ e < 2 ^ 128 - 2 ^ 103 ∧
        (packed (roundWithAccuracy .binary32 s (n / d) e
          (accuracyOfFraction (n % d) d))).isFinite = true ∨
      2 ^ 128 - 2 ^ 103 ≤ (n : ℚ) / d * 2 ^ e ∧
        packed (roundWithAccuracy .binary32 s (n / d) e (accuracyOfFraction (n % d) d)) =
          .infinity s := by
  have hbound := fraction_lt_overflow_iff hd hready
  have henough := le_mantissa_fraction_shift hready
  have hleast : -149 ≤ e + (shiftOf (n / d) e : ℤ) := by
    unfold shiftOf
    omega
  rw [roundWithAccuracy_eq, ← fraction]
  dsimp only at hbound ⊢
  generalize fraction n d >>> shiftOf (n / d) e = em at hbound henough
  generalize e + (shiftOf (n / d) e : ℤ) = e' at hbound henough hleast
  rw [signed]
  by_cases hzero : em.roundedMantissa / 2 ^ shiftOf em.roundedMantissa e' = 0
  · rw [dif_pos hzero, packed_zero]
    rw [shiftOf_of_le hleast] at hbound hzero
    have hvanished : em.roundedMantissa = 0 := by
      by_contra hnonzero
      exact cut_ne_zero hnonzero hzero
    have hless : em.mantissa < 2 ^ 23 := by
      by_contra hfull
      have hrounded := (le_roundedMantissa em (k := 2 ^ 22)).2 (by unfold quarters; omega)
      omega
    have hexponent : e' + ((em.roundedMantissa.log2 - 23 : ℕ) : ℤ) < 105 := by
      rw [hvanished, Nat.log2_zero]
      by_contra hlarge
      exact hless.not_ge (henough (by omega))
    exact .inl ⟨hbound.2 hexponent, rfl⟩
  · rw [dif_neg hzero]
    rcases packed_cases (s := s) (Nat.pos_of_ne_zero hzero)
      (show -149 ≤ e' + (shiftOf em.roundedMantissa e' : ℤ) by omega) with
      ⟨hsmall, hfinite⟩ | ⟨hlarge, hinfinity⟩
    · exact .inl ⟨hbound.2 hsmall, hfinite⟩
    · exact .inr ⟨not_lt.1 (mt hbound.1 hlarge.not_gt), hinfinity⟩

/-- A mantissa with all its bits is rounded to one with all its bits, after one more shift if there
is one too many. -/
theorem cut_rounded {em : ExtendedMantissa} (hlow : 2 ^ 23 ≤ em.mantissa)
    (hcut : em.mantissa < 2 ^ 24) {e : ℤ} (hleast : -149 ≤ e) :
    2 ^ 23 ≤ em.roundedMantissa / 2 ^ shiftOf em.roundedMantissa e ∧
      em.roundedMantissa / 2 ^ shiftOf em.roundedMantissa e < 2 ^ 24 ∧
      em.roundedMantissa / 2 ^ shiftOf em.roundedMantissa e *
        2 ^ shiftOf em.roundedMantissa e ≤ 2 * em.mantissa := by
  have hrounded := roundedMantissa_le em
  have hcarry : 2 * 2 ^ 23 ≤ em.roundedMantissa ↔ 8 * 2 ^ 23 ≤ quarters em + 2 :=
    le_roundedMantissa em
  have hfull : 2 * 2 ^ 22 ≤ em.roundedMantissa :=
    (le_roundedMantissa em (k := 2 ^ 22)).2 (by unfold quarters; omega)
  rw [shiftOf_roundedMantissa hcut hleast]
  split
  · rw [pow_zero, Nat.div_one]
    omega
  · rw [pow_one]
    omega

/-- Rounding a number with enough bits at most doubles it. -/
theorem abs_packed_fraction_le (hd : 0 < d) (hmany : 2 ^ 23 ≤ n / d) (he : -149 < e)
    (hless : (n : ℚ) / d * 2 ^ e < 2 ^ 128 - 2 ^ 103) (s : UnpackedFloat.Sign) :
    |ratOf (packed (roundWithAccuracy .binary32 s (n / d) e (accuracyOfFraction (n % d) d)))| ≤
      2 * ((n : ℚ) / d * 2 ^ e) := by
  have hcut := mantissa_fraction_shift_lt (n := n) (d := d) (e := e)
  have hlow := le_mantissa_fraction_shift (e := e) (.inr hmany) (by omega)
  have hbound := (fraction_lt_overflow_iff hd (.inr hmany)).1 hless
  have hkept : (fraction n d >>> shiftOf (n / d) e).mantissa * 2 ^ shiftOf (n / d) e * d ≤ n := by
    rw [mantissa_shift, fraction_mantissa]
    exact (Nat.mul_le_mul_right d (Nat.div_mul_le_self _ _)).trans (Nat.div_mul_le_self n d)
  rw [roundWithAccuracy_eq, ← fraction]
  dsimp only at hbound ⊢
  generalize fraction n d >>> shiftOf (n / d) e = em at hcut hlow hbound hkept
  obtain ⟨hfull, hfits, hvalue⟩ :=
    cut_rounded hlow hcut (show -149 ≤ e + (shiftOf (n / d) e : ℤ) by omega)
  rw [signed, dif_neg (by omega), packed_normal _ hfull hfits (by omega) hbound, abs_ratOf]
  generalize shiftOf em.roundedMantissa (e + (shiftOf (n / d) e : ℤ)) = c at hvalue ⊢
  generalize shiftOf (n / d) e = j at hkept ⊢
  have hd' : (0 : ℚ) < d := by exact_mod_cast hd
  have hdoubled : ((em.roundedMantissa / 2 ^ c * 2 ^ c : ℕ) : ℚ) ≤ 2 * em.mantissa := by
    exact_mod_cast hvalue
  have hquotient : (em.mantissa : ℚ) * 2 ^ j ≤ n / d := (le_div_iff₀ hd').2 (by exact_mod_cast hkept)
  calc ((em.roundedMantissa / 2 ^ c : ℕ) : ℚ) * 2 ^ (e + j + c)
      = ((em.roundedMantissa / 2 ^ c * 2 ^ c : ℕ) : ℚ) * 2 ^ j * 2 ^ e := by
        rw [zpow_add₀ two_ne_zero, zpow_add₀ two_ne_zero, zpow_natCast, zpow_natCast, Nat.cast_mul]
        push_cast
        ring
    _ ≤ 2 * em.mantissa * 2 ^ j * 2 ^ e := by gcongr
    _ = 2 * (em.mantissa * 2 ^ j * 2 ^ e) := by ring
    _ ≤ 2 * (n / d * 2 ^ e) := by gcongr

end

/-! ## Quotients -/

/-- A quotient of two mantissas is given with enough bits. -/
theorem divCore_eq {m m' : ℕ} (hm : 0 < m) (hm' : 0 < m') (e e' : ℤ) : ∃ n t,
    UnpackedFloat.divCore .binary32 m e m' e' = (n / m', t, accuracyOfFraction (n % m') m') ∧
      (t ≤ -149 ∨ 2 ^ 23 ≤ n / m') ∧
      (n : ℚ) / m' * 2 ^ t = (m * 2 ^ e) / (m' * 2 ^ e') := by
  generalize ht : min (e - e') (Format.targetExponent .binary32
    (totalExponent m e - totalExponent m' e')) = t
  have htarget : t = min (e - e') (max ((m.log2 : ℤ) + 1 + e - (m'.log2 + 1 + e') - 24) (-149)) :=
    ht.symm
  obtain ⟨j, hj⟩ := Int.eq_ofNat_of_zero_le (show 0 ≤ e - e' - t by omega)
  refine ⟨m <<< j, t, ?_, ?_, ?_⟩
  · unfold UnpackedFloat.divCore
    dsimp only
    rw [ht, hj]
    rfl
  · by_cases hsmall : t ≤ -149
    · exact .inl hsmall
    · -- the quotient is shifted as far as the lengths of the two mantissas ask for
      have hbits : m'.log2 + 1 + 23 ≤ m.log2 + j := by omega
      refine .inr ((Nat.le_div_iff_mul_le hm').2 ?_)
      calc 2 ^ 23 * m' ≤ 2 ^ 23 * 2 ^ (m'.log2 + 1) := Nat.mul_le_mul_left _ Nat.lt_log2_self.le
        _ = 2 ^ (m'.log2 + 1 + 23) := by rw [pow_add _ (m'.log2 + 1), Nat.mul_comm]
        _ ≤ 2 ^ (m.log2 + j) := Nat.pow_le_pow_right two_pos hbits
        _ = 2 ^ m.log2 * 2 ^ j := pow_add _ _ _
        _ ≤ m * 2 ^ j := Nat.mul_le_mul_right _ (Nat.log2_self_le hm.ne')
        _ = m <<< j := (Nat.shiftLeft_eq m j).symm
  · have hexponent : e = e' + t + j := by omega
    have hm'' : (m' : ℚ) ≠ 0 := by exact_mod_cast hm'.ne'
    rw [hexponent, zpow_add₀ two_ne_zero, zpow_add₀ two_ne_zero, zpow_natCast, Nat.shiftLeft_eq]
    push_cast
    field_simp

/-- A whole number is given with enough bits, too. -/
theorem round_eq (s : UnpackedFloat.Sign) {m : ℕ} (hm : 0 < m) : ∃ n t,
    UnpackedFloat.round .binary32 s m 0 =
        roundWithAccuracy .binary32 s (n / 1) t (accuracyOfFraction (n % 1) 1) ∧
      2 ^ 23 ≤ n / 1 ∧ -149 < t ∧ (n : ℚ) / (1 : ℕ) * 2 ^ t = m := by
  generalize ht : Format.targetExponent .binary32 (totalExponent m 0) = t
  have htarget : t = max ((m.log2 : ℤ) + 1 + 0 - 24) (-149) := ht.symm
  refine ⟨m <<< (0 - t).toNat, 0 - (0 - t).toNat, ?_, ?_, by omega, ?_⟩
  · rw [Nat.div_one, Nat.mod_one]
    unfold UnpackedFloat.round
    rw [ht]
    rfl
  · calc 2 ^ 23 ≤ 2 ^ (m.log2 + (0 - t).toNat) := Nat.pow_le_pow_right two_pos (by omega)
      _ = 2 ^ m.log2 * 2 ^ (0 - t).toNat := pow_add _ _ _
      _ ≤ m * 2 ^ (0 - t).toNat := Nat.mul_le_mul_right _ (Nat.log2_self_le hm.ne')
      _ = m <<< (0 - t).toNat / 1 := by rw [Nat.shiftLeft_eq, Nat.div_one]
  · have hexponent : (0 : ℤ) - (0 - t).toNat = -((0 - t).toNat : ℤ) := zero_sub _
    rw [hexponent, Nat.shiftLeft_eq, zpow_neg, zpow_natCast]
    push_cast
    field_simp

/-- A whole number that is not too large stays finite, and is at most doubled. -/
theorem packed_round (s : UnpackedFloat.Sign) {m : ℕ} (hm : 0 < m) (h : m < 2 ^ 127) :
    (packed (UnpackedFloat.round .binary32 s m 0)).isFinite = true ∧
      |ratOf (packed (UnpackedFloat.round .binary32 s m 0))| ≤ 2 * m := by
  obtain ⟨n, t, hround, henough, hleast, hvalue⟩ := round_eq s hm
  have hless : (n : ℚ) / (1 : ℕ) * 2 ^ t < 2 ^ 128 - 2 ^ 103 := by
    have hm' : (m : ℚ) < 2 ^ 127 := by exact_mod_cast h
    rw [hvalue]
    norm_num at hm' ⊢
    linarith
  rw [hround]
  constructor
  · rcases packed_fraction_cases Nat.one_pos (.inr henough) s with ⟨_, hfinite⟩ | ⟨hlarge, _⟩
    · exact hfinite
    · exact absurd hless hlarge.not_gt
  · have hbound := abs_packed_fraction_le Nat.one_pos henough hleast hless s
    rwa [hvalue] at hbound

end Rounding

namespace Single

open Float.Model (UnpackedFloat)
open Float.Model.UnpackedFloat (accuracyOfFraction roundWithAccuracy)

variable {x y : Single}

theorem unpack_div (x y : Single) :
    (x / y).unpack = Rounding.packed (.div .binary32 x.unpack y.unpack) := rfl

/-- Integers that are not too large stay finite, and are at most doubled. -/
theorem ofInt_cases {n : ℤ} (h : n.natAbs < 2 ^ 127) :
    (ofInt n).isFinite ∧ |(ofInt n).toRat| ≤ 2 * n.natAbs := by
  change (Rounding.packed (UnpackedFloat.normalize .binary32 n 0 .positive)).isFinite = true ∧
    |ratOf (Rounding.packed (UnpackedFloat.normalize .binary32 n 0 .positive))| ≤ _
  unfold UnpackedFloat.normalize
  rcases lt_trichotomy n 0 with hneg | rfl | hpos
  · have habs : (-n).toNat = n.natAbs := by omega
    rw [Int.compare_eq_lt.2 hneg]
    dsimp only
    rw [habs]
    exact Rounding.packed_round .negative (by omega) h
  · rw [Int.compare_eq_eq.2 rfl]
    dsimp only
    have hzero : ratOf (.zero .positive) = 0 := rfl
    rw [Rounding.packed_zero, hzero, abs_zero]
    exact ⟨rfl, by positivity⟩
  · have habs : n.toNat = n.natAbs := by omega
    rw [Int.compare_eq_gt.2 hpos]
    dsimp only
    rw [habs]
    exact Rounding.packed_round .positive (by omega) h

theorem abs_toRat {s : UnpackedFloat.Sign} {m : ℕ} {e : ℤ} {h : 0 < m}
    (hx : x.unpack = .finite s m e h) : |x.toRat| = m * 2 ^ e := by
  rw [toRat, hx, Rounding.abs_ratOf]

/-- The quotient by a positive number is a number, or an infinity if it is too large. -/
theorem div_cases (hx : x.isFinite) (hy : 0 < y) (hy' : y.isFinite) :
    |x.toRat| < (2 ^ 128 - 2 ^ 103) * y.toRat ∧ (x / y).unpack.isFinite = true ∨
      (2 ^ 128 - 2 ^ 103) * y.toRat ≤ |x.toRat| ∧ ∃ s, (x / y).unpack = .infinity s := by
  obtain ⟨m', e', hm', huy⟩ := unpack_of_pos hy hy'
  have hpos : 0 < y.toRat := (pos_iff hy').1 hy
  rw [unpack_div, huy]
  cases hux : x.unpack with
  | infinity s =>
    have hnumber : x.unpack.isFinite := hx
    rw [hux] at hnumber
    cases hnumber
  | notANumber =>
    have hnumber : x.unpack.isFinite := hx
    rw [hux] at hnumber
    cases hnumber
  | zero s =>
    have hzero : x.toRat = 0 := by
      rw [toRat, hux]
      rfl
    refine .inl ⟨?_, ?_⟩
    · rw [hzero, abs_zero]
      exact mul_pos (by norm_num) hpos
    · change (Rounding.packed (.zero (s / .positive))).isFinite = true
      rw [Rounding.packed_zero]
      rfl
  | finite s m e hm =>
    obtain ⟨n, t, hcore, hready, hquotient⟩ := Rounding.divCore_eq hm hm' e e'
    have hdiv : UnpackedFloat.div .binary32 (.finite s m e hm) (.finite .positive m' e' hm') =
        roundWithAccuracy .binary32 (s / .positive) (n / m') t (accuracyOfFraction (n % m') m') := by
      change roundWithAccuracy .binary32 (s / .positive)
        (UnpackedFloat.divCore .binary32 m e m' e').1 (UnpackedFloat.divCore .binary32 m e m' e').2.1
        (UnpackedFloat.divCore .binary32 m e m' e').2.2 = _
      rw [hcore]
    have hbound : (n : ℚ) / m' * 2 ^ t < 2 ^ 128 - 2 ^ 103 ↔
        |x.toRat| < (2 ^ 128 - 2 ^ 103) * y.toRat := by
      rw [hquotient, ← toRat_of_unpack huy, ← abs_toRat hux, div_lt_iff₀ hpos]
    rw [hdiv]
    rcases Rounding.packed_fraction_cases hm' hready (s / .positive) with
      ⟨hsmall, hfinite⟩ | ⟨hlarge, hinfinity⟩
    · exact .inl ⟨hbound.1 hsmall, hfinite⟩
    · exact .inr ⟨not_lt.1 (mt hbound.2 hlarge.not_gt), _, hinfinity⟩

end Single

end LoadBench
