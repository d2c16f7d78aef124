import LoadBench.Proofs.Frame

/-!
# Refused commands

A refused command leaves everything as it was, however far it got before the refusal. There is one
exception: a distance calibration has to move before it can ask how far it went, so that a refusal
of the answer finds the actuator at the target, with the old steps per unit in force.
-/

namespace LoadBench

/-- A distance calibration reached its target, and the steps per unit that the operator's distance
gives were refused. -/
structure Bench.Stranded (b b' : Bench) (target feedrate : Single) (why : Refusal) : Prop where
  feedrate : 0 < feedrate
  moved : b'.actuator.position ≠ b.actuator.position
  steps : b'.actuator.position = stepsOf target b.calibration.stepsPerUnit
  position : b'.position = target
  refused : ∃ observed stepsPerUnit,
    observedStepsPerUnit (b'.actuator.position - b.actuator.position) observed = .ok stepsPerUnit ∧
      Calibration.checkStepsPerUnit stepsPerUnit = .error (.invalidScaleFactor .stepsPerUnit stepsPerUnit) ∧
      why = .setting (.invalidScaleFactor .stepsPerUnit stepsPerUnit)

namespace Action

variable {b b' : Bench} {why : Refusal}

/-- An action whose effects include no refusal does not refuse. -/
theorem Uses.not_refused {α : Type} {K : Effect → Prop} {act : Action α} (h : Uses K act)
    (hK : ∀ why, ¬ K (.refuse why)) : act b ≠ .error (.refused why) b' :=
  fun hact => hK why (h.refusal hact)

theorem accept_eq_ok {ε α : Type} {cause : ε → Refusal} {r : Except ε α} {a : α} :
    accept cause r b = .ok a b' ↔ r = .ok a ∧ b' = b := by
  cases r with
  | ok a' => simp [accept, pure_apply, eq_comm]
  | error e => simp [accept, refuse_apply]

theorem accept_eq_refused {ε α : Type} {cause : ε → Refusal} {r : Except ε α} :
    accept cause r b = .error (.refused why) b' ↔ (∃ e, r = .error e ∧ why = cause e) ∧ b' = b := by
  cases r with
  | ok a => simp [accept, pure_apply]
  | error e => simp [accept, refuse_apply, eq_comm]

/-- A change is worked out from the constants in force, and a refused one has no effect. -/
theorem update_eq_ok {changes : List Calibration.Change} {r : Except SettingError Calibration} :
    update changes b = .ok r b' ↔
      r = b.calibration.update changes ∧ b' = (Effect.change changes).apply (b.afterOccasion .change) := by
  have hsame : (b.afterOccasion .change).calibration = b.calibration :=
    (b.afterOccasion_spared .change).calibration
  rw [update_eq]
  change EStateM.Result.ok ((b.afterOccasion .change).calibration.update changes)
    ((Effect.change changes).apply (b.afterOccasion .change)) = _ ↔ _
  simp [hsame, eq_comm]

theorem change_apply_of_error {c : Bench} {changes : List Calibration.Change} {e : SettingError}
    (h : c.calibration.update changes = .error e) : (Effect.change changes).apply c = c := by
  simp [Effect.apply, h]

theorem change_ok {changes : List Calibration.Change} {c : Calibration}
    (h : change changes b = .ok c b') : b.calibration.update changes = .ok c ∧
      b' = { b.afterOccasion .change with calibration := c } := by
  obtain ⟨r, b₁, hr, h⟩ := bind_eq_ok.1 h
  obtain ⟨rfl, rfl⟩ := update_eq_ok.1 hr
  obtain ⟨hc, rfl⟩ := accept_eq_ok.1 h
  have hsame := (b.afterOccasion_spared .change).calibration
  refine ⟨hc, ?_⟩
  simp [Effect.apply, hsame, hc]

/-- A refused change happens on an occasion, and nothing else happens. -/
theorem change_refused {changes : List Calibration.Change}
    (h : change changes b = .error (.refused why) b') :
    b' = b.afterOccasion .change ∧
      ∃ e, b.calibration.update changes = .error e ∧ why = .setting e := by
  rcases bind_eq_error.1 h with h | ⟨r, c, hr, h⟩
  · have hsteady : Uses (fun e => ∀ why, e ≠ .refuse why) (update changes) :=
      update_uses nofun nofun
    exact absurd h (hsteady.not_refused (by simp))
  · obtain ⟨rfl, rfl⟩ := update_eq_ok.1 hr
    obtain ⟨⟨e, he, rfl⟩, rfl⟩ := accept_eq_refused.1 h
    have hsame := (b.afterOccasion_spared .change).calibration
    exact ⟨change_apply_of_error (hsame ▸ he), e, he, rfl⟩

/-! ## Moves -/

theorem move_refused {target feedrate : Single} {samples : Int} {u : Single}
    (h : move target feedrate samples u b = .error (.refused why) b') : b' = b := by
  rw [move_eq, get_bind_apply] at h
  rcases bind_eq_error.1 h with h | ⟨plan, c, _, h⟩
  · exact (accept_eq_refused.1 h).2
  · exact absurd h ((drive_uses _ _ _ _).not_refused fun _ h => h)

theorem follow_unmoved {step : Cadence → Nat → Option Nat × Cadence} {u : Single}
    {c : Option Cadence} {r : Bool × Option Cadence} (h : follow step u c b = .ok r b') :
    b.Unmoved b' := by
  have huses : Uses Effect.Still (follow step u c) := follow_uses trivial fun _ _ => trivial
  exact (huses.reaches_of_ok h).unmoved fun _ he => he

/-- The actuator travels until it has arrived. -/
theorem travel_arrives {u : Single} {allowance ticks : Nat} {c : Option Cadence}
    {r : Nat × Option Cadence} (h : travel u allowance c ticks b = .ok r b') :
    b'.actuator.position = b.actuator.target := by
  have htarget : b'.actuator.target = b.actuator.target := by
    refine ((travel_uses _ _ _ _).reaches_of_ok h).frame (·.actuator.target) ?_
    intro e he c
    exact Effect.apply_target (fun plan hplan => by simp [hplan, Effect.Travelling] at he) c
  have hgo : b'.actuator.toGo = 0 :=
    (travel_ok (P := fun _ _ => True) (fun _ _ _ _ _ _ _ _ => trivial) (fun _ _ _ _ => trivial)
      trivial h).2
  rw [← Steps.sub_eq_zero.1 hgo, htarget]

/-- A move that completes ends at its target, both in steps and in distance. -/
theorem move_ok {target feedrate : Single} {samples : Int} {u : Single} {r : MoveReport}
    (h : move target feedrate samples u b = .ok r b') :
    0 < feedrate ∧ b'.actuator.position = stepsOf target u ∧ b'.position = target := by
  rw [move_eq, get_bind_apply] at h
  obtain ⟨plan, c, hplan, hdrive⟩ := bind_eq_ok.1 h
  obtain ⟨hplan, rfl⟩ := accept_eq_ok.1 hplan
  have hfeed : 0 < feedrate ∧ plan.target = stepsOf target u := by
    unfold Plan.make at hplan
    split at hplan
    · next hpos => cases hplan; exact ⟨hpos, rfl⟩
    · cases hplan
  obtain ⟨n, b₁, r₁, b₂, r₂, b₃, r₃, b₄, rfl, h₁, h₂, h₃, rfl, rfl⟩ := drive_ok hdrive
  have harrived : b₄.actuator.position = plan.target := by
    rw [(follow_unmoved h₃).actuator, travel_arrives h₂, (follow_unmoved h₁).actuator]
    rfl
  exact ⟨hfeed.1, harrived.trans hfeed.2, rfl⟩

/-! ## Load calibrations -/

theorem measuring_spares {α : Type} {act : Action α} (hact : Uses Effect.Measuring act) {a : α}
    (h : act b = .ok a b') : b.Spared b' ∧ b.Unmoved b' := by
  have hreaches := hact.reaches_of_ok h
  exact ⟨hreaches.spared fun _ he => he.sparing, hreaches.unmoved fun _ he => he.still⟩

/-- A step of a load calibration that does not finish it writes nothing. -/
theorem loadStep_spares {m : LoadCalibration} {r : Except Refusal LoadCalibration}
    (h : m.step b = .ok r b') (hr : ∀ m', r = .ok m' → m'.phase ≠ .done) :
    b.Spared b' ∧ b.Unmoved b' := by
  by_cases hphase : m.phase = .apply
  · unfold LoadCalibration.step at h
    rw [hphase] at h
    cases hk : m.computed with
    | none =>
      rw [hk] at h
      cases h
      exact absurd rfl (hr _ rfl)
    | some k =>
      rw [hk] at h
      obtain ⟨updated, c, hc, hrest⟩ := bind_eq_ok.1 h
      obtain ⟨rfl, rfl⟩ := update_eq_ok.1 hc
      cases hu : b.calibration.update [.scaleDivider k.divider, .offset k.offset] with
      | ok c =>
        rw [hu] at hrest
        cases hrest
        exact absurd rfl (hr _ rfl)
      | error e =>
        rw [hu] at hrest
        cases hrest
        have hsame := (b.afterOccasion_spared .change).calibration
        rw [change_apply_of_error (hsame ▸ hu)]
        exact ⟨b.afterOccasion_spared .change, b.afterOccasion_unmoved .change⟩
  · exact measuring_spares (loadStep_measures hphase) h

/-- Refused at any phase, the calibration of the load cell has set no constant. -/
theorem loadSteps_spare {n : Nat} {m m' : LoadCalibration}
    (h : LoadCalibration.steps n m b = .ok (m', some why) b') : b.Spared b' ∧ b.Unmoved b' := by
  induction n generalizing m b with
  | zero => cases h
  | succ n ih =>
    obtain ⟨r, c, hstep, hrest⟩ := bind_eq_ok.1 h
    cases r with
    | error e =>
      cases hrest
      exact loadStep_spares hstep nofun
    | ok m₁ =>
      change (if m₁.phase = .done then _ else _ : Action _) c = _ at hrest
      split at hrest
      · cases hrest
      · next hdone =>
        obtain ⟨hs, hu⟩ := loadStep_spares hstep (by rintro _ ⟨⟩; exact hdone)
        obtain ⟨hs', hu'⟩ := ih hrest
        exact ⟨hs.trans hs', hu.trans hu'⟩

theorem calibrateLoad_refused {reference : Single}
    (h : calibrateLoad reference b = .error (.refused why) b') : b.Spared b' ∧ b.Unmoved b' := by
  rw [calibrateLoad_eq] at h
  rcases bind_eq_error.1 h with h | ⟨⟨m, refusal⟩, c, hsteps, hrest⟩
  · exact absurd h ((loadSteps_uses 7 _).not_refused fun _ h => h)
  · cases refusal with
    | none => cases hrest
    | some why' =>
      cases hrest
      exact loadSteps_spare hsteps

/-! ## Constants -/

theorem setConstants_refused {given : Constants}
    (h : setConstants given b = .error (.refused why) b') : b.Spared b' ∧ b.Unmoved b' := by
  rw [setConstants_eq] at h
  rcases bind_eq_error.1 h with hchange | ⟨c, b₁, _, hannounce⟩
  · rw [(change_refused hchange).1]
    exact ⟨b.afterOccasion_spared .change, b.afterOccasion_unmoved .change⟩
  · exact absurd hannounce ((announce_uses given c).not_refused fun _ he => he)

/-! ## Distance calibrations -/

/-- The scale that was accepted is the one observed with the reply that was accepted. -/
theorem distanceAmong_ok {commanded : Steps} {replies : Nat} {r : Single × Single}
    (h : distanceAmong commanded replies b = .ok r b') :
    observedStepsPerUnit commanded r.2 = .ok r.1 := by
  induction replies generalizing b with
  | zero => cases h
  | succ replies ih =>
    rw [distanceAmong, note_bind_apply] at h
    obtain ⟨distance, c, hnumber, hrest⟩ := bind_eq_ok.1 h
    cases hd : observedStepsPerUnit commanded distance with
    | ok u =>
      rw [hd] at hrest
      cases hrest
      exact hd
    | error e =>
      rw [hd] at hrest
      exact ih hrest

/-- A move without samples touches neither the constants nor the mailbox. -/
theorem move_spares {target feedrate : Single} {u : Single} {r : MoveReport}
    (h : move target feedrate 0 u b = .ok r b') : b.Spared b' := by
  refine ((move_uses target feedrate 0 u).reaches_of_ok h).spared ?_
  intro e he
  cases e with
  | post r => exact absurd he (Int.lt_irrefl 0)
  | note | occasion | spend | tick | aim | arrive | refuse => trivial
  | _ => exact he.elim

theorem update_stepsPerUnit_error {c : Calibration} {u : Single} {e : SettingError}
    (h : c.update [.stepsPerUnit u] = .error e) :
    Calibration.checkStepsPerUnit u = .error e ∧ e = .invalidScaleFactor .stepsPerUnit u := by
  have hcheck : Calibration.checkStepsPerUnit u = .error e := by
    simpa [Calibration.Change.check] using Calibration.update_eq_error.1 h
  refine ⟨hcheck, ?_⟩
  unfold Calibration.checkStepsPerUnit at hcheck
  split at hcheck
  · cases hcheck
  · cases hcheck
    rfl

/-- Refused before the move, everything is as it was; refused after it, the bench is stranded. -/
theorem calibrateDistance_refused {target feedrate : Single}
    (h : calibrateDistance target feedrate b = .error (.refused why) b') :
    b.Spared b' ∧ (b.Unmoved b' ∨ b.Stranded b' target feedrate why) := by
  rw [calibrateDistance_eq, get_bind_apply] at h
  split at h
  · cases h
    exact ⟨.refl b, .inl (.refl b)⟩
  · next hgo =>
    -- the note, the acknowledgement, the move, the question, the change: only the move and the
    -- change can refuse, and what comes before each of them has to have come to pass
    have hnote : b.Spared (b.noted (.distanceMove
        (stepsOf target b.calibration.stepsPerUnit - b.actuator.position))) :=
      Effect.apply_spared (e := .note _) trivial b
    have hnote' : b.Unmoved (b.noted (.distanceMove
        (stepsOf target b.calibration.stepsPerUnit - b.actuator.position))) := ⟨rfl, rfl, rfl⟩
    rw [calibrateBy, note_bind_apply] at h
    rcases bind_eq_error.1 h with hack | ⟨_, b₁, hack, hafter₁⟩
    · exact absurd hack (awaitAck_uses.not_refused fun _ he => he)
    obtain ⟨hs, hu⟩ := measuring_spares (awaitAck_uses.mono fun _ he => he.measuring) hack
    have hs₁ := hnote.trans hs
    have hu₁ := hnote'.trans hu
    rcases bind_eq_error.1 hafter₁ with hmove | ⟨r, b₂, hmove, hafter₂⟩
    · rw [move_refused hmove]
      exact ⟨hs₁, .inl hu₁⟩
    obtain ⟨hfeed, hsteps, hposition⟩ := move_ok hmove
    have hs₂ := hs₁.trans (move_spares hmove)
    rcases bind_eq_error.1 hafter₂ with hask | ⟨⟨u, observed⟩, b₃, hask, hafter₃⟩
    · exact absurd hask ((askDistance_uses _).not_refused fun _ he => he)
    obtain ⟨hs₃, hu₃⟩ := measuring_spares ((askDistance_uses _).mono fun _ he => he.measuring) hask
    have hobserved := distanceAmong_ok hask
    rcases bind_eq_error.1 hafter₃ with hchange | ⟨c, b₄, _, hafter₄⟩
    · obtain ⟨hend, e, he, rfl⟩ := change_refused hchange
      obtain ⟨hcheck, rfl⟩ := update_stepsPerUnit_error he
      have hu₄ := hu₃.trans (b₃.afterOccasion_unmoved .change)
      rw [← hend] at hu₄
      have hstands : b'.actuator.position = stepsOf target b.calibration.stepsPerUnit := by
        rw [hu₄.actuator, hsteps]
      refine ⟨hs₂.trans (hs₃.trans (hend ▸ b₃.afterOccasion_spared .change)), .inr ?_⟩
      constructor
      · exact hfeed
      · rw [hstands]
        exact fun heq => hgo (Steps.sub_eq_zero.2 heq)
      · exact hstands
      · rw [hu₄.position, hposition]
      · refine ⟨observed, u, ?_, hcheck, rfl⟩
        rw [hstands]
        exact hobserved
    · cases hafter₄

/-! ## Commands -/

theorem execute_move_refused {target feedrate : Single} {samples : Int}
    (h : execute (.move target feedrate samples) b = .error (.refused why) b') : b' = b := by
  rw [execute, get_bind_apply] at h
  rcases bind_eq_error.1 h with hmove | ⟨report, c, _, hcount⟩
  · exact move_refused hmove
  · cases hcount

theorem execute_calibrateLoad_refused {reference : Single}
    (h : execute (.calibrateLoad reference) b = .error (.refused why) b') :
    b.Spared b' ∧ b.Unmoved b' := by
  rcases bind_eq_error.1 h with hrefused | ⟨k, c, _, hend⟩
  · exact calibrateLoad_refused hrefused
  · cases hend

theorem execute_calibrateDistance_refused {target feedrate : Single}
    (h : execute (.calibrateDistance target feedrate) b = .error (.refused why) b') :
    b.Spared b' ∧ (b.Unmoved b' ∨ b.Stranded b' target feedrate why) := by
  rcases bind_eq_error.1 h with hrefused | ⟨report, c, _, hend⟩
  · exact calibrateDistance_refused hrefused
  · cases hend

theorem execute_wait_not_refused {seconds : Single} :
    execute (.wait seconds) b ≠ .error (.refused why) b' :=
  (execute_uses (.wait seconds)).not_refused fun _ h => h.1

/-- A refused command touches neither constants nor tally, and the mailbox no more than the
sampling does. -/
theorem execute_refused_spares {c : Command} (h : execute c b = .error (.refused why) b') :
    b.Spared b' := by
  cases c with
  | move target feedrate samples => exact execute_move_refused h ▸ .refl b
  | wait seconds => exact absurd h execute_wait_not_refused
  | replay cycles => cases h
  | constants given => exact (setConstants_refused h).1
  | calibrateLoad reference => exact (execute_calibrateLoad_refused h).1
  | calibrateDistance target feedrate => exact (execute_calibrateDistance_refused h).1

/-- Refused commands are atomic: constants, amplifier, tally and mailbox are as before, and so are
actuator, clock and position, but for a distance calibration whose answer was refused after its
move. -/
theorem refused_command_atomic (c : Command) (h : execute c b = .error (.refused why) b') :
    b.Spared b' ∧ (b.Unmoved b' ∨ ∃ target feedrate,
      c = .calibrateDistance target feedrate ∧ b.Stranded b' target feedrate why) := by
  refine ⟨execute_refused_spares h, ?_⟩
  cases c with
  | move target feedrate samples =>
    rw [execute_move_refused h]
    exact .inl (.refl b)
  | wait seconds => exact absurd h execute_wait_not_refused
  | replay cycles => cases h
  | constants given => exact .inl (setConstants_refused h).2
  | calibrateLoad reference => exact .inl (execute_calibrateLoad_refused h).2
  | calibrateDistance target feedrate =>
    rcases (execute_calibrateDistance_refused h).2 with hstill | hstranded
    · exact .inl hstill
    · exact .inr ⟨target, feedrate, rfl, hstranded⟩

/-- An operator who acknowledges the move and then gives an infinite distance, for which the steps
per unit come to zero. -/
def overshotBench : Bench where
  cell := { zeroCounts := 0, countsPerUnit := 1 }
  operator := { pollMillis := 1, sources := [.polled [some .proceed, some (.value (1 / 0))]] }
  ticksLeft := 1000
  delaysLeft := 1000

theorem overshot_calibration_atomic : ∃ why b',
    execute (.calibrateDistance 0.05 10) overshotBench = .error (.refused why) b' ∧
      b'.calibration = overshotBench.calibration ∧ b'.tally = overshotBench.tally ∧
      b'.mailbox = overshotBench.mailbox ∧ overshotBench.Stranded b' 0.05 10 why := by
  have hrun : (execute (.calibrateDistance 0.05 10)).refusedWith
      (fun b' => b'.actuator.position ≠ overshotBench.actuator.position) overshotBench := by
    decide +kernel
  obtain ⟨why, b', h, hmoved⟩ := exists_of_refusedWith hrun
  obtain ⟨hspared, hunmoved | ⟨target, feedrate, heq, hstranded⟩⟩ := refused_command_atomic _ h
  · rw [hunmoved.actuator] at hmoved
    simp at hmoved
  · cases heq
    exact ⟨why, b', h, hspared.calibration, hspared.tally, hspared.unattended fun _ _ => rfl,
      hstranded⟩

end Action

end LoadBench
