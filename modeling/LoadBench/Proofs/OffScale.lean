import LoadBench.Proofs.Grammar
import LoadBench.Proofs.Overflow
import LoadBench.Proofs.Route
import LoadBench.Proofs.Validity

/-!
# Positions off the scale

Lines give finite numbers only, so a position that a move has reached is finite. A position that was
worked out from the steps is a quotient. Since steps per unit are positive it is a number or an
infinity, and an infinity it is exactly if the quotient is larger than singles reach: steps per unit
pass their check however small they are.
-/

namespace LoadBench

theorem Command.finite_of_ofLine {line : String} {c : Command} (h : ofLine line = .ok c) :
    ∀ x ∈ c.numbers, x.isFinite := by
  unfold ofLine ofChars at h
  dsimp only at h
  split at h
  · cases h
  · split at h
    · cases h
    · exact (ofFields_eq_ok.1 h).2.finite

theorem Command.target_mem_numbers {c : Command} {x : Single} (h : c.target? = some x) :
    x ∈ c.numbers := by
  cases c with
  | move target feedrate samples =>
    cases h
    exact List.mem_cons_self
  | calibrateDistance target feedrate =>
    cases h
    exact List.mem_cons_self
  | _ => cases h

theorem Steps.natAbs_le (n : Steps) : n.toInt.natAbs ≤ 2 ^ 63 := by
  have hn := n.toInt_mem
  omega

/-- All step counts are in reach of a single, but not all distances. -/
theorem distanceOf_cases (steps : Steps) {u : Single} (hu : 0 < u) (hu' : u.isFinite) :
    |(Single.ofInt steps).toRat| < (2 ^ 128 - 2 ^ 103) * u.toRat ∧
        (distanceOf steps u).unpack.isFinite = true ∨
      (2 ^ 128 - 2 ^ 103) * u.toRat ≤ |(Single.ofInt steps).toRat| ∧
        ∃ s, (distanceOf steps u).unpack = .infinity s := by
  have hrange := steps.natAbs_le
  exact Single.div_cases (Single.ofInt_cases (by omega)).1 hu hu'

namespace Bench

/-- The position was worked out from the steps, and the quotient is larger than singles reach. -/
def OffScale (b : Bench) : Prop :=
  b.position = distanceOf b.actuator.position b.calibration.stepsPerUnit ∧
    (2 ^ 128 - 2 ^ 103) * b.calibration.stepsPerUnit.toRat ≤
      |(Single.ofInt b.actuator.position).toRat|

/-- The position is a finite number, or it was worked out from the steps, by constants that pass
their checks. -/
structure Reckoned (b : Bench) : Prop where
  valid : b.calibration.Valid
  position : b.position.isFinite ∨
    b.position = distanceOf b.actuator.position b.calibration.stepsPerUnit

variable {b b' : Bench}

theorem Reckoned.finite_or_offScale (h : b.Reckoned) :
    (b.position.isFinite ∧ ¬ b.OffScale) ∨ (b.OffScale ∧ ∃ s, b.position.unpack = .infinity s) := by
  by_cases hreckoned : b.position = distanceOf b.actuator.position b.calibration.stepsPerUnit
  · have hquotient := distanceOf_cases b.actuator.position h.valid.stepsPerUnit_pos
      h.valid.stepsPerUnit_finite
    rw [← hreckoned] at hquotient
    rcases hquotient with ⟨hless, hfinite⟩ | ⟨hmost, hinfinity⟩
    · exact .inl ⟨hfinite, fun hoff => hoff.2.not_gt hless⟩
    · exact .inr ⟨⟨hreckoned, hmost⟩, hinfinity⟩
  · exact .inl ⟨h.position.resolve_right hreckoned, fun hoff => hreckoned hoff.1⟩

theorem Reckoned.isFinite_iff (h : b.Reckoned) : b.position.isFinite ↔ ¬ b.OffScale := by
  rcases h.finite_or_offScale with ⟨hfinite, hon⟩ | ⟨hoff, s, hinfinity⟩
  · exact iff_of_true hfinite hon
  · refine iff_of_false (fun hfinite => ?_) (not_not.2 hoff)
    have hnumber : b.position.unpack.isFinite := hfinite
    rw [hinfinity] at hnumber
    cases hnumber

/-- Only tiny steps per unit take a position off the scale. -/
theorem OffScale.lt (hoff : b.OffScale) : b.calibration.stepsPerUnit.toRat < 2 ^ (-63 : ℤ) := by
  have hrange := b.actuator.position.natAbs_le
  have hdoubled := (Single.ofInt_cases (n := b.actuator.position) (by omega)).2
  have hmost : (b.actuator.position.toInt.natAbs : ℚ) ≤ 2 ^ 63 := by exact_mod_cast hrange
  have hreach := hoff.2
  by_contra hlarge
  norm_num at hlarge hreach
  linarith

/-- A position that is reckoned from steps is never undefined. -/
theorem Reckoned.isNaN_eq_false (h : b.Reckoned) : b.position.isNaN = false := by
  change b.position.unpack.isNaN = false
  rcases h.finite_or_offScale with ⟨hfinite, _⟩ | ⟨_, s, hinfinity⟩
  · have hnumber : b.position.unpack.isFinite := hfinite
    cases hp : b.position.unpack with
    | notANumber =>
      rw [hp] at hnumber
      cases hnumber
    | _ => rfl
  · rw [hinfinity]
    rfl

/-- A command reckons the position anew or leaves it. -/
theorem Reckoned.placed (hb : b.Reckoned) {c : Command} (hc : ∀ x ∈ c.numbers, x.isFinite)
    (hvalid : b'.calibration.Valid) (h : c.Places b b') : b'.Reckoned := by
  refine ⟨hvalid, ?_⟩
  cases h with
  | stays h =>
    rw [h.unmoved.position, h.unmoved.actuator, h.scale]
    exact hb.position
  | arrives htarget _ _ hposition =>
    rw [hposition]
    exact .inl (hc _ (Command.target_mem_numbers htarget))
  | rebases _ hposition => exact .inr hposition

end Bench

namespace Action

variable {b b' : Bench}

theorem visit_reckoned {v : Visit}
    (hv : ∀ l, v.line? = some l → ∀ c, l.command = .ok c → ∀ x ∈ c.numbers, x.isFinite)
    (h : visit v b = .ok () b') (hb : b.Reckoned) : b'.Reckoned := by
  refine visit_invariant_of (P := Bench.Reckoned) ?_ ?_ ?_ hv h hb
  · exact fun _ _ _ _ hc => ⟨hc.valid, hc.position⟩
  · exact fun c _ _ hc h hb =>
      hb.placed hc (((execute_uses c).reaches_of_ok h).valid hb.valid) (execute_places h)
  · exact fun c _ _ _ hc h hb =>
      hb.placed hc (((execute_uses c).reaches_of_error h).valid hb.valid) (execute_refused_places h)

theorem started_reckoned (hb : b.Reckoned) (p : Program) : (b.started p).Reckoned := by
  have hscale := congrArg Calibration.stepsPerUnit (b.started_spared p).calibration
  refine ⟨started_valid hb.valid p, ?_⟩
  rw [started_position, started_steps, hscale]
  exact hb.position

/-- A program runs from lines that nobody has looked at. After every line, at whatever depth of
replays, the position is a number or an infinity. It is finite but where it was worked out from the
steps by steps per unit too small for it, which are less than `2 ^ (-63)`. -/
theorem run_position (lines : List String) (hvalid : b.calibration.Valid)
    (hposition : b.position.isFinite) :
    let p := Program.ofLines lines
    runFront p p.length = visitAll (p.visits p.length) ∧
      ∀ vs d, vs <+: p.visits p.length → visitAll vs (b.started p) = .ok () d →
        d.position.isNaN = false ∧ (d.position.isFinite ↔ ¬ d.OffScale) ∧
          (d.OffScale → d.calibration.stepsPerUnit.toRat < 2 ^ (-63 : ℤ)) := by
  intro p
  refine ⟨runFront_eq p p.length, fun vs d hfront h => ?_⟩
  have hstart : b.Reckoned := ⟨hvalid, .inl hposition⟩
  have hd : d.Reckoned := by
    refine visitAll_invariant_of (P := Bench.Reckoned) (fun v hv _ _ => visit_reckoned ?_) h
      (started_reckoned hstart p)
    intro l hl c hc
    obtain ⟨line, _, rfl⟩ := List.mem_map.1 (Program.mem_of_mem_visits (hfront.subset hv) hl)
    exact Command.finite_of_ofLine hc
  exact ⟨hd.isNaN_eq_false, hd.isFinite_iff, Bench.OffScale.lt⟩

/-- A move of four steps, and steps per unit by which four steps are farther than singles reach. -/
def tinyScale : List String := ["G01 X0.05 F10", "G00 SPI1e-40"]

/-- Both lines are carried out, and then the position is not finite. -/
theorem tinyScale_completes :
    (visitAll ((Program.ofLines tinyScale).visits 2)).completesWith
      (fun d => d.tally.executed == 2 && !d.position.isFinite)
      (plainBench.started (Program.ofLines tinyScale)) = true := by
  decide +kernel

theorem tinyScale_offScale : ∃ d,
    visitAll ((Program.ofLines tinyScale).visits 2) (plainBench.started (Program.ofLines tinyScale)) =
      .ok () d ∧ d.position.isNaN = false ∧ d.OffScale ∧
        d.calibration.stepsPerUnit.toRat < 2 ^ (-63 : ℤ) := by
  obtain ⟨_, d, h, hend⟩ := exists_of_completesWith tinyScale_completes
  have hvalid : plainBench.calibration.Valid :=
    Calibration.ofConstants_valid (show Calibration.ofConstants 80 1 0 = .ok .initial from rfl)
  obtain ⟨_, hafter⟩ := run_position tinyScale hvalid rfl
  obtain ⟨hnumber, hfinite, htiny⟩ := hafter _ d (List.prefix_refl _) h
  have hoff : d.OffScale := by
    by_contra hon
    rw [hfinite.2 hon, Bool.not_true, Bool.and_false] at hend
    cases hend
  exact ⟨d, h, hnumber, hoff, htiny hoff⟩

/-- A bench starts at the origin with the initial constants. Every line is accepted and carried out,
and the position is not finite. -/
theorem accepted_scale_overflows :
    plainBench.calibration = .initial ∧ ∃ d,
      visitAll ((Program.ofLines tinyScale).visits 2)
          (plainBench.started (Program.ofLines tinyScale)) = .ok () d ∧
        d.tally.executed = 2 ∧ ¬ d.position.isFinite := by
  obtain ⟨_, d, h, hend⟩ := exists_of_completesWith tinyScale_completes
  simp only [Bool.and_eq_true, beq_iff_eq, Bool.not_eq_true'] at hend
  exact ⟨rfl, d, h, hend.1, by rw [hend.2]; exact Bool.false_ne_true⟩

end Action

end LoadBench
