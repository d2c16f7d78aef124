import LoadBench.Motion.Plan

/-!
# The way of a move

A move has as many steps as its difference of step counts says. That difference wraps around if its
ends are too far apart. The actuator goes by what is left of it and arrives all the same, but only if
the difference is exact does the way lead from the start to the target; else it leads away from the
target, past the ends of the counts.
-/

namespace LoadBench

namespace Steps

theorem toInt_mem (n : Steps) : -0x8000000000000000 ≤ n.toInt ∧ n.toInt < 0x8000000000000000 :=
  ⟨n.le_toInt, n.toInt_lt⟩

/-- From the one count to the other there are no more steps than counts can say. -/
def InReach (m n : Steps) : Prop :=
  -0x8000000000000000 ≤ n.toInt - m.toInt ∧ n.toInt - m.toInt < 0x8000000000000000

instance (m n : Steps) : Decidable (InReach m n) :=
  inferInstanceAs (Decidable (_ ∧ _))

/-- A difference of counts is exact, or wrapped around once. -/
theorem toInt_sub_cases (m n : Steps) :
    InReach m n ∧ (n - m).toInt = n.toInt - m.toInt ∨
      n.toInt - m.toInt < -0x8000000000000000 ∧
        (n - m).toInt = n.toInt - m.toInt + 0x10000000000000000 ∨
      0x8000000000000000 ≤ n.toInt - m.toInt ∧
        (n - m).toInt = n.toInt - m.toInt - 0x10000000000000000 := by
  have hm := m.toInt_mem
  have hn := n.toInt_mem
  rw [Int64.toInt_sub, Int.bmod_eq_emod, InReach]
  split <;> omega

theorem toInt_sub_eq_iff {m n : Steps} : (n - m).toInt = n.toInt - m.toInt ↔ InReach m n := by
  have hcases := toInt_sub_cases m n
  constructor
  · intro hexact
    rcases hcases with ⟨hreach, _⟩ | ⟨_, hwrapped⟩ | ⟨_, hwrapped⟩
    · exact hreach
    · omega
    · omega
  · rintro ⟨hlow, hhigh⟩
    omega

end Steps

namespace Plan

variable {p : Plan} {j k : Nat}

def length (p : Plan) : Nat := p.delta.toInt.natAbs

/-- The step at which the actuator stands after `k` ticks of the move. -/
def place (p : Plan) (k : Nat) : Steps := p.start + .ofInt (k * p.delta.toInt.sign)

/-- The second step lies on the straight way from the first to the target, and is not the first. -/
def Nearer (p : Plan) (m n : Steps) : Prop := m < n ∧ n ≤ p.target ∨ p.target ≤ n ∧ n < m

instance (p : Plan) (m n : Steps) : Decidable (p.Nearer m n) :=
  inferInstanceAs (Decidable (_ ∨ _))

theorem length_mul_sign (p : Plan) : p.length * p.delta.toInt.sign = p.delta.toInt := by
  rw [length, Int.mul_comm, Int.sign_mul_natAbs]

theorem place_zero (p : Plan) : p.place 0 = p.start := by
  rw [place, Int.natCast_zero, Int.zero_mul]
  exact Int64.add_zero p.start

theorem place_succ (p : Plan) (k : Nat) :
    p.place (k + 1) = p.place k + .ofInt p.delta.toInt.sign := by
  rw [place, place, Int.natCast_add, Int.add_mul, Int.natCast_one, Int.one_mul, Int64.ofInt_add,
    Int64.add_assoc]

/-- What is left of the move after `k` of its ticks is that much less in its direction. However the
counts wrap around, this difference of two of them does not. -/
theorem toInt_target_sub_place (p : Plan) (h : k ≤ p.length) :
    (p.target - p.place k).toInt = (p.length - k : Nat) * p.delta.toInt.sign := by
  have hleft : p.target - p.place k = .ofInt ((p.length - k : Nat) * p.delta.toInt.sign) := by
    rw [Int.ofNat_sub h, Int.sub_mul, p.length_mul_sign, Int64.ofInt_sub, Int64.ofInt_toInt, place,
      delta]
    grind
  have hlength := p.length_mul_sign
  have hdelta := p.delta.toInt_mem
  rw [hleft]
  refine Int64.toInt_ofInt_of_le ?_ ?_
  all_goals
    rcases Int.sign_trichotomy p.delta.toInt with hsign | hsign | hsign
    all_goals
      rw [hsign] at hlength ⊢
      omega

theorem place_length (p : Plan) : p.place p.length = p.target := by
  have hleft := p.toInt_target_sub_place (Nat.le_refl _)
  rw [Nat.sub_self, Int.natCast_zero, Int.zero_mul, ← Int64.toInt_zero, Int64.toInt_inj] at hleft
  exact (Steps.sub_eq_zero.1 hleft).symm

/-- Before its last tick a move has the direction that it began with. -/
theorem sign_target_sub_place (p : Plan) (h : k < p.length) :
    (p.target - p.place k).toInt.sign = p.delta.toInt.sign := by
  rw [p.toInt_target_sub_place (Nat.le_of_lt h), Int.sign_mul, Int.sign_sign,
    Int.sign_natCast_of_ne_zero (by omega), Int.one_mul]

theorem sign_delta_ne_zero (p : Plan) (h : 0 < p.length) : p.delta.toInt.sign ≠ 0 := by
  intro hsign
  rw [length, Int.sign_eq_zero_iff_zero.1 hsign, Int.natAbs_zero] at h
  exact Nat.lt_irrefl 0 h

theorem target_sub_place_ne_zero (p : Plan) (h : k < p.length) : p.target - p.place k ≠ 0 := by
  intro hzero
  have hsign := p.sign_target_sub_place h
  rw [hzero] at hsign
  exact p.sign_delta_ne_zero (Nat.zero_lt_of_lt h) hsign.symm

/-- Until it arrives a move comes to no step twice. -/
theorem place_inj (hj : j ≤ p.length) (hk : k ≤ p.length) (h : p.place j = p.place k) : j = k := by
  have hleft := p.toInt_target_sub_place hj
  rw [h, p.toInt_target_sub_place hk] at hleft
  by_cases hnone : p.length = 0
  · omega
  · have hcancel := Int.eq_of_mul_eq_mul_right (p.sign_delta_ne_zero (by omega)) hleft
    omega

/-- With its ends in reach of each other, a move counts on from its start without a wrap. -/
theorem toInt_place (hreach : p.start.InReach p.target) (hk : k ≤ p.length) :
    (p.place k).toInt = p.start.toInt + k * (p.target.toInt - p.start.toInt).sign := by
  have hdelta : p.delta.toInt = p.target.toInt - p.start.toInt := Steps.toInt_sub_eq_iff.2 hreach
  have hleft := p.toInt_target_sub_place hk
  have hlength := p.length_mul_sign
  have hcases := Steps.toInt_sub_cases (p.place k) p.target
  have hstart := p.start.toInt_mem
  have htarget := p.target.toInt_mem
  have hplace := (p.place k).toInt_mem
  rw [hdelta] at hleft hlength
  rcases Int.sign_trichotomy (p.target.toInt - p.start.toInt) with hsign | hsign | hsign
  all_goals
    rw [hsign] at hleft hlength ⊢
    omega

/-- With its ends in reach of each other, each tick of a move takes it further towards its target. -/
theorem nearer_place (hreach : p.start.InReach p.target) (hjk : j < k) (hk : k ≤ p.length) :
    p.Nearer (p.place j) (p.place k) := by
  have hj := toInt_place hreach (Nat.le_trans (Nat.le_of_lt hjk) hk)
  have hk' := toInt_place hreach hk
  have hdelta : p.delta.toInt = p.target.toInt - p.start.toInt := Steps.toInt_sub_eq_iff.2 hreach
  have hlength := p.length_mul_sign
  have hmoves := p.sign_delta_ne_zero (by omega)
  rw [hdelta] at hlength hmoves
  simp only [Nearer, Int64.lt_iff_toInt_lt, Int64.le_iff_toInt_le]
  rcases Int.sign_trichotomy (p.target.toInt - p.start.toInt) with hsign | hsign | hsign
  all_goals
    rw [hsign] at hj hk' hlength hmoves
    omega

/-- With its ends out of reach of each other, a move comes to no step between them. -/
theorem not_nearer_place (hreach : ¬ p.start.InReach p.target) (hk : k < p.length) :
    ¬ p.Nearer p.start (p.place k) := by
  have hleft := p.toInt_target_sub_place (Nat.le_of_lt hk)
  have hlength := p.length_mul_sign
  have hdelta := Steps.toInt_sub_cases p.start p.target
  have hcases := Steps.toInt_sub_cases (p.place k) p.target
  have hstart := p.start.toInt_mem
  have htarget := p.target.toInt_mem
  change _ ∧ p.delta.toInt = _ ∨ _ ∧ p.delta.toInt = _ ∨ _ ∧ p.delta.toInt = _ at hdelta
  unfold Steps.InReach at hreach hdelta hcases
  simp only [Nearer, Int64.lt_iff_toInt_lt, Int64.le_iff_toInt_le]
  rcases Int.sign_trichotomy p.delta.toInt with hsign | hsign | hsign
  all_goals
    rw [hsign] at hleft hlength
    omega

/-- What there is to say about the steps that a move has come to after the ticks `ks`. -/
structure Passes (p : Plan) (ks : List Nat) : Prop where
  increasing : ks.Pairwise (· < ·)
  within : ∀ k ∈ ks, 0 < k ∧ k ≤ p.length
  distinct : (ks.map p.place).Nodup
  /-- From the start each of them is nearer to the target than those before. -/
  towards : p.start.InReach p.target → (p.start :: ks.map p.place).Pairwise p.Nearer
  /-- Out of reach of the target none of them is nearer to it than the start, until it arrives. -/
  astray : ¬ p.start.InReach p.target → ∀ k ∈ ks, k < p.length → ¬ p.Nearer p.start (p.place k)

theorem passes_of_increasing (p : Plan) {ks : List Nat} (h : ks.Pairwise (· < ·))
    (hwithin : ∀ k ∈ ks, 0 < k ∧ k ≤ p.length) : p.Passes ks where
  increasing := h
  within := hwithin
  distinct := by
    refine List.pairwise_map.2 (h.imp_of_mem fun hj hk hjk heq => ?_)
    exact Nat.ne_of_lt hjk (place_inj (hwithin _ hj).2 (hwithin _ hk).2 heq)
  towards hreach := by
    have hfirst : ∀ k ∈ ks, p.Nearer p.start (p.place k) := by
      intro k hk
      rw [← p.place_zero]
      exact nearer_place hreach (hwithin k hk).1 (hwithin k hk).2
    refine List.pairwise_cons.2 ⟨?_, List.pairwise_map.2 (h.imp_of_mem fun _ hk hjk => ?_)⟩
    · exact List.forall_mem_map.2 hfirst
    · exact nearer_place hreach hjk (hwithin _ hk).2
  astray hreach _ _ hk := not_nearer_place hreach hk

end Plan

end LoadBench
