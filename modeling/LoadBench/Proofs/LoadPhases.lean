import LoadBench.Proofs.Refusal

/-!
# The phases of a load calibration

A load calibration is a machine that somebody calls again and again, while the load, the operator and
the bench change as they like between the calls. It goes through its phases one at a time. It writes
the constants once, on the way into its last phase, and a call that is refused leaves everything as
it was, so that every later call is refused for the same cause.
-/

namespace LoadBench

def LoadPhase.next : LoadPhase → LoadPhase
  | .awaitZero => .measureZero
  | .measureZero => .awaitLoad
  | .awaitLoad => .measureLoad
  | .measureLoad => .compute
  | .compute => .apply
  | .apply => .done
  | .done => .done

def LoadPhase.gathers : LoadPhase → Bool
  | .compute | .apply | .done => false
  | _ => true

/-- The bench with other constants of the load cell, both in force and in the amplifier. -/
def Bench.withLoadConstants (b : Bench) (k : LoadConstants) : Bench :=
  { b with
    calibration := { b.calibration with scaleDivider := k.divider, offset := k.offset }
    cell := { b.cell with driverScale := k.divider, driverOffset := k.offset } }

namespace LoadCalibration

open LoadBench.Action

/-! ## One step -/

inductive Stepped (m : LoadCalibration) (b : Bench) :
    Except Refusal LoadCalibration → Bench → Prop where
  | gathered {m' : LoadCalibration} {b' : Bench} : m.phase.gathers → m'.phase = m.phase.next →
    m'.computed = m.computed → Bench.Reaches Effect.Measuring b b' → Stepped m b (.ok m') b'
  | computed (k : LoadConstants) (n : Notice) : m.phase = .compute →
    Stepped m b (.ok { m with phase := .apply, computed := some k }) (b.noted n)
  | uncomputable {e : CalibrationError} : m.phase = .compute →
    LoadConstants.ofMeans m.zeroMean m.loadMean m.reference = .error e →
    Stepped m b (.error (.calibration e)) b
  | applied {k : LoadConstants} (n : Notice) : m.phase = .apply → m.computed = some k →
    Stepped m b (.ok { m with phase := .done })
      (((b.afterOccasion .change).withLoadConstants k).noted n)
  | inapplicable {k : LoadConstants} {e : SettingError} : m.phase = .apply → m.computed = some k →
    Calibration.checkScaleDivider k.divider = .error e →
    Stepped m b (.error (.setting e)) (b.afterOccasion .change)
  | passed : m.phase = .apply → m.computed = none → Stepped m b (.ok { m with phase := .done }) b
  | rested : m.phase = .done → Stepped m b (.ok m) b

variable {m : LoadCalibration} {b b' : Bench} {r : Except Refusal LoadCalibration}

/-- An offset is never refused, so all depends on the divider. -/
theorem check_constants (k : LoadConstants) :
    forM [Calibration.Change.scaleDivider k.divider, .offset k.offset] Calibration.Change.check =
      Calibration.checkScaleDivider k.divider := by
  change (do Calibration.checkScaleDivider k.divider; Except.ok ()) = _
  cases Calibration.checkScaleDivider k.divider <;> rfl

theorem step_compute_error {e : CalibrationError} (hphase : m.phase = .compute)
    (he : LoadConstants.ofMeans m.zeroMean m.loadMean m.reference = .error e) (b : Bench) :
    m.step b = .ok (.error (.calibration e)) b := by
  unfold step
  rw [hphase]
  simp only [he]
  rfl

/-- Constants that are refused leave the phase as it is. -/
theorem step_apply_error {k : LoadConstants} {e : SettingError} (hphase : m.phase = .apply)
    (hk : m.computed = some k) (he : Calibration.checkScaleDivider k.divider = .error e)
    (b : Bench) : m.step b = .ok (.error (.setting e)) (b.afterOccasion .change) := by
  have hrefused (c : Calibration) : c.update [.scaleDivider k.divider, .offset k.offset] = .error e :=
    Calibration.update_eq_error.2 ((check_constants k).trans he)
  have hupdate : update [.scaleDivider k.divider, .offset k.offset] b =
      .ok (.error e) (b.afterOccasion .change) :=
    update_eq_ok.2 ⟨(hrefused _).symm, (change_apply_of_error (hrefused _)).symm⟩
  unfold step
  rw [hphase]
  simp only [hk]
  rw [bind_of_ok hupdate]
  rfl

theorem step_done (hphase : m.phase = .done) (b : Bench) : m.step b = .ok (.ok m) b := by
  unfold step
  rw [hphase]
  rfl

/-- Constants that are accepted end the calibration, with the amplifier set to them. -/
theorem step_apply_ok {k : LoadConstants} (hphase : m.phase = .apply) (hk : m.computed = some k)
    (hcheck : Calibration.checkScaleDivider k.divider = .ok ()) (b : Bench) :
    ∃ n, m.step b = .ok (.ok { m with phase := .done })
      (((b.afterOccasion .change).withLoadConstants k).noted n) := by
  have hset (c : Calibration) : c.update [.scaleDivider k.divider, .offset k.offset] =
      .ok { c with scaleDivider := k.divider, offset := k.offset } :=
    Calibration.update_eq_ok.2 ⟨(check_constants k).trans hcheck, rfl⟩
  have hupdate : update [.scaleDivider k.divider, .offset k.offset] b =
      .ok (.ok { b.calibration with scaleDivider := k.divider, offset := k.offset })
        ((Effect.change [.scaleDivider k.divider, .offset k.offset]).apply
          (b.afterOccasion .change)) :=
    update_eq_ok.2 ⟨(hset _).symm, rfl⟩
  refine ⟨.loadCalibrated k.offset k.divider, ?_⟩
  unfold step
  rw [hphase]
  simp only [hk]
  rw [bind_of_ok hupdate]
  simp only [Effect.apply, hset]
  rfl

theorem stepped (h : m.step b = .ok r b') : Stepped m b r b' := by
  cases hphase : m.phase with
  | awaitZero | awaitLoad =>
    have hreaches := (loadStep_measures (by simp [hphase])).reaches_of_ok h
    unfold step at h
    rw [hphase] at h
    obtain ⟨_, _, _, hack⟩ := bind_eq_ok.1 h
    obtain ⟨_, _, _, hend⟩ := bind_eq_ok.1 hack
    cases hend
    exact .gathered (by rw [hphase]; rfl) (by rw [hphase]; rfl) rfl hreaches
  | measureZero | measureLoad =>
    have hreaches := (loadStep_measures (by simp [hphase])).reaches_of_ok h
    unfold step at h
    rw [hphase] at h
    obtain ⟨_, _, _, hnote⟩ := bind_eq_ok.1 h
    cases hnote
    exact .gathered (by rw [hphase]; rfl) (by rw [hphase]; rfl) rfl hreaches
  | compute =>
    cases hk : LoadConstants.ofMeans m.zeroMean m.loadMean m.reference with
    | error e =>
      cases (step_compute_error hphase hk b).symm.trans h
      exact .uncomputable hphase hk
    | ok k =>
      unfold step at h
      rw [hphase] at h
      simp only [hk] at h
      cases h
      exact .computed k _ hphase
  | apply =>
    rcases hk : m.computed with _ | k
    · unfold step at h
      rw [hphase] at h
      simp only [hk] at h
      cases h
      exact hk ▸ .passed hphase hk
    · cases hcheck : Calibration.checkScaleDivider k.divider with
      | error e =>
        cases (step_apply_error hphase hk hcheck b).symm.trans h
        exact .inapplicable hphase hk hcheck
      | ok _ =>
        obtain ⟨n, hstep⟩ := step_apply_ok hphase hk hcheck b
        cases hstep.symm.trans h
        exact .applied n hphase hk
  | done =>
    cases (step_done hphase b).symm.trans h
    exact .rested hphase

/-! ## What a step keeps -/

/-- Constants are there in the last two phases and in no other. -/
def Consistent (m : LoadCalibration) : Prop :=
  m.computed.isSome ↔ m.phase = .apply ∨ m.phase = .done

/-- The machine refuses every call for this cause. -/
def Stuck (m : LoadCalibration) (why : Refusal) : Prop :=
  ∀ b, ∃ b', m.step b = .ok (.error why) b'

def afterCall (m : LoadCalibration) : Except Refusal LoadCalibration → LoadCalibration
  | .ok m' => m'
  | .error _ => m

theorem Stepped.phase_eq {m' : LoadCalibration} (h : Stepped m b (.ok m') b') :
    m'.phase = m.phase.next := by
  cases h with
  | gathered _ hnext => exact hnext
  | computed k n hphase | applied n hphase | passed hphase | rested hphase => rw [hphase]; rfl

/-- A call keeps what was computed in step with the phase. -/
theorem Stepped.consistent (h : Stepped m b r b') (hm : m.Consistent) :
    (m.afterCall r).Consistent := by
  unfold Consistent at hm ⊢
  cases h with
  | gathered hgathers hnext hsame =>
    rw [afterCall, hsame, hm, hnext]
    cases hphase : m.phase <;> simp_all [LoadPhase.gathers, LoadPhase.next]
  | computed => simp [afterCall]
  | uncomputable | inapplicable | rested => exact hm
  | applied n _ hk => simp [afterCall, hk]
  | passed hphase hnone => simp [hphase, hnone] at hm

theorem Stepped.stuck {why : Refusal} (h : Stepped m b (.error why) b') : m.Stuck why := by
  cases h with
  | uncomputable hphase he => exact fun c => ⟨_, step_compute_error hphase he c⟩
  | inapplicable hphase hk he => exact fun c => ⟨_, step_apply_error hphase hk he c⟩

/-- A step makes a refusal its result, and is not broken off by one. -/
theorem step_not_refused {why : Refusal} : m.step b ≠ .error (.refused why) b' :=
  (loadStep_uses m).not_refused fun _ h => h

/-! ## All steps -/

structure Call where
  machine : LoadCalibration
  before : Bench
  result : Except Refusal LoadCalibration
  after : Bench

namespace Call

def applies (c : Call) : Bool := c.machine.phase = .apply && c.result.isOk

/-- A call that is refused comes from one of two phases and does nothing to the bench. At most the
sampling had a turn; without it not even a reading was taken. -/
structure Harmless (c : Call) : Prop where
  phase : c.machine.phase = .compute ∨ c.machine.phase = .apply
  operator : c.after.operator = c.before.operator
  attended : c.before.Attended c.after
  cell : c.before.Unattended → c.after.cell = c.before.cell

/-- What holds of every call. -/
structure Orderly (c : Call) : Prop where
  advances : ∀ m, c.result = .ok m → m.phase = c.machine.phase.next
  refuses : ∀ why, c.result = .error why → c.Harmless
  writes : c.applies → ∃ k, c.machine.computed = some k ∧
    c.after.calibration = { c.before.calibration with
      scaleDivider := k.divider, offset := k.offset } ∧
    c.after.cell.driverScale = k.divider ∧ c.after.cell.driverOffset = k.offset
  spares : ¬ c.applies → c.after.calibration = c.before.calibration ∧
    c.after.cell.driverScale = c.before.cell.driverScale ∧
    c.after.cell.driverOffset = c.before.cell.driverOffset

end Call

/-- The calls of a machine on these benches, up to one that does not return. Anything may have
changed from one call to the next, so each finds a bench of its own. -/
def calls (m : LoadCalibration) : List Bench → List Call
  | [] => []
  | b :: bs =>
    match m.step b with
    | .ok result b' => ⟨m, b, result, b'⟩ :: calls (m.afterCall result) bs
    | .error _ _ => []

def afterCalls (m : LoadCalibration) : List Bench → LoadCalibration
  | [] => m
  | b :: bs =>
    match m.step b with
    | .ok result _ => afterCalls (m.afterCall result) bs
    | .error _ _ => m

variable {bs : List Bench}

theorem Stepped.harmless {why : Refusal} (h : Stepped m b (.error why) b') :
    Call.Harmless ⟨m, b, .error why, b'⟩ := by
  cases h with
  | uncomputable hphase => exact ⟨.inl hphase, rfl, .refl b, fun _ => rfl⟩
  | inapplicable hphase =>
    have hattended := b.afterOccasion_attended .change
    refine ⟨.inr hphase, ?_, hattended, fun hidle => ?_⟩
    · obtain ⟨_, _, _, _, _, heq, _⟩ := hattended
      rw [heq]
    · rw [Bench.afterOccasion_of_unattended hidle]

theorem Stepped.orderly (h : Stepped m b r b') (hm : m.Consistent) :
    Call.Orderly ⟨m, b, r, b'⟩ where
  advances := by
    rintro m' rfl
    exact h.phase_eq
  refuses := by
    rintro why rfl
    exact h.harmless
  writes := by
    intro happlies
    cases h with
    | applied n _ hk =>
      have hsame := b.afterOccasion_spared .change
      refine ⟨_, hk, ?_, rfl, rfl⟩
      rw [← hsame.calibration]
      rfl
    | passed hphase hnone => simp [Consistent, hphase, hnone] at hm
    | gathered hgathers =>
      simp only [Call.applies, Bool.and_eq_true, decide_eq_true_eq] at happlies
      simp [happlies.1, LoadPhase.gathers] at hgathers
    | computed _ _ hphase | uncomputable hphase | rested hphase => simp [Call.applies, hphase] at happlies
    | inapplicable => simp [Call.applies, Except.isOk, Except.toBool] at happlies
  spares := by
    intro happlies
    have hsame : b.Spared b' → b'.calibration = b.calibration ∧
        b'.cell.driverScale = b.cell.driverScale ∧ b'.cell.driverOffset = b.cell.driverOffset :=
      fun hspared => ⟨hspared.calibration, hspared.driverScale, hspared.driverOffset⟩
    cases h with
    | gathered _ _ _ hreaches => exact hsame (hreaches.spared fun _ he => he.sparing)
    | inapplicable => exact hsame (b.afterOccasion_spared .change)
    | applied n hphase => simp [Call.applies, hphase, Except.isOk, Except.toBool] at happlies
    | computed | uncomputable | passed | rested => exact ⟨rfl, rfl, rfl⟩

theorem afterCalls_consistent (hm : m.Consistent) (bs : List Bench) :
    (m.afterCalls bs).Consistent := by
  induction bs generalizing m with
  | nil => exact hm
  | cons b bs ih =>
    cases h : m.step b with
    | error stop b' => simpa only [afterCalls, h] using hm
    | ok r b' => simpa only [afterCalls, h] using ih ((stepped h).consistent hm)

theorem calls_orderly (hm : m.Consistent) (bs : List Bench) : ∀ c ∈ m.calls bs, c.Orderly := by
  induction bs generalizing m with
  | nil => simp [calls]
  | cons b bs ih =>
    cases h : m.step b with
    | error stop b' => simp [calls, h]
    | ok r b' =>
      simp only [calls, h, List.mem_cons, forall_eq_or_imp]
      exact ⟨(stepped h).orderly hm, ih ((stepped h).consistent hm)⟩

/-- Being done is brought about by a call that writes, and by no other. -/
theorem Stepped.applies_done (h : Stepped m b r b') :
    (if (Call.mk m b r b').applies then 1 else 0) + (if m.phase = .done then 1 else 0) =
      if (m.afterCall r).phase = .done then 1 else 0 := by
  cases h with
  | gathered hgathers hnext =>
    cases hphase : m.phase <;>
      simp_all [LoadPhase.gathers, LoadPhase.next, Call.applies, afterCall]
  | computed _ _ hphase | uncomputable hphase | inapplicable hphase | applied _ hphase
  | passed hphase | rested hphase =>
    simp [Call.applies, afterCall, hphase, Except.isOk, Except.toBool]

/-- The constants are applied at most once, and exactly once when the calibration is done. -/
theorem countP_applies (m : LoadCalibration) (bs : List Bench) :
    (m.calls bs).countP Call.applies + (if m.phase = .done then 1 else 0) =
      if (m.afterCalls bs).phase = .done then 1 else 0 := by
  induction bs generalizing m with
  | nil => exact Nat.zero_add _
  | cons b bs ih =>
    cases h : m.step b with
    | error stop b' => simp only [calls, afterCalls, h, List.countP_nil, Nat.zero_add]
    | ok r b' =>
      have hcall := (stepped h).applies_done
      have hrest := ih (m.afterCall r)
      simp only [calls, afterCalls, h, List.countP_cons]
      omega

/-- A machine that is stuck stays what it is, and gives the same answer to every call. -/
theorem Stuck.calls {why : Refusal} (h : m.Stuck why) (bs : List Bench) :
    m.afterCalls bs = m ∧ ∀ c ∈ m.calls bs, c.result = .error why := by
  induction bs with
  | nil => exact ⟨rfl, by simp [LoadCalibration.calls]⟩
  | cons b bs ih =>
    obtain ⟨b', hb'⟩ := h b
    simp only [LoadCalibration.calls, afterCalls, hb', List.mem_cons, forall_eq_or_imp]
    exact ⟨ih.1, trivial, ih.2⟩

/-- A refused machine is stuck, and every later call is refused in the same way. -/
theorem stuck_of_refused {front back : List Call} {c : Call} {why : Refusal}
    (h : m.calls bs = front ++ c :: back) (hc : c.result = .error why) :
    c.machine.Stuck why ∧ m.afterCalls bs = c.machine ∧ ∀ d ∈ back, d.result = .error why := by
  induction bs generalizing m front with
  | nil => simp [calls] at h
  | cons b bs ih =>
    cases hstep : m.step b with
    | error stop b' => simp [calls, hstep] at h
    | ok r b' =>
      simp only [calls, hstep] at h
      simp only [afterCalls, hstep]
      cases front with
      | nil =>
        obtain ⟨rfl, rfl⟩ := List.cons.inj h
        obtain rfl : r = .error why := hc
        have hstuck := (stepped hstep).stuck
        exact ⟨hstuck, hstuck.calls bs⟩
      | cons d front => exact ih (List.cons.inj h).2

/-- A load calibration is called again and again, on benches that change as they like. Its phases
follow one another. Constants are computed exactly in the last two. They are written by the call
that leads into the last phase, once, and by no other. A call that is refused comes from one of the
two phases before, changes nothing, and condemns the machine to the same refusal for ever. A machine
that is done changes nothing either. -/
theorem calls_in_order (reference : Single) (bs : List Bench) :
    let m : LoadCalibration := { reference }
    let m' := m.afterCalls bs
    (∀ c ∈ m.calls bs, c.Orderly) ∧
    (m'.computed.isSome ↔ m'.phase = .apply ∨ m'.phase = .done) ∧
    (m.calls bs).countP Call.applies = (if m'.phase = .done then 1 else 0) ∧
    (∀ front c back why, m.calls bs = front ++ c :: back → c.result = .error why →
      c.machine.Stuck why ∧ m' = c.machine ∧ ∀ d ∈ back, d.result = .error why) ∧
    (∀ b why b', m'.step b ≠ .error (.refused why) b') ∧
    (m'.phase = .done → ∀ b, m'.step b = .ok (.ok m') b) := by
  intro m m'
  have hm : m.Consistent := by simp [m, Consistent]
  refine ⟨calls_orderly hm bs, afterCalls_consistent hm bs, countP_applies m bs, ?_, ?_, ?_⟩
  · exact fun front c back why h hc => stuck_of_refused h hc
  · exact fun b why b' => step_not_refused
  · exact fun hphase b => step_done hphase b

/-- A bench whose operator acknowledges once, with some load on the cell. -/
def weighing (load : Single) : Bench where
  cell := { zeroCounts := 100, countsPerUnit := 10, load }
  operator := { pollMillis := 1, sources := [.polled [some .proceed]] }
  ticksLeft := 0
  delaysLeft := 1000

/-- The load is put on the cell after two calls, and a seventh call finds the machine done. -/
theorem weighing_in_order :
    let m : LoadCalibration := { reference := 2 }
    let bs := [weighing 0, weighing 0, weighing 4, weighing 4, weighing 4, weighing 4, weighing 4]
    (m.calls bs).length = 7 ∧ (m.calls bs).countP Call.applies = 1 ∧
      ∀ b, (m.afterCalls bs).step b = .ok (.ok (m.afterCalls bs)) b := by
  intro m bs
  have hdone : (m.afterCalls bs).phase = .done := by decide +kernel
  obtain ⟨_, _, honce, _, _, hrests⟩ := calls_in_order 2 bs
  refine ⟨by decide +kernel, ?_, hrests hdone⟩
  rw [honce, if_pos hdone]

end LoadCalibration

end LoadBench
