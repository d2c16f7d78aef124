import LoadBench.Config.Document
import LoadBench.Proofs.Visits

/-!
# Constants that pass their checks

Steps per unit are positive and finite and scale dividers are finite and not zero, in the constants
that a bench starts with and in all that are in force later. Commands, calibrations and changes of
any kind lead from one to the next, whatever the operator answers and whatever the load cell reads;
what fails its check is refused before it is in force.
-/

namespace LoadBench

/-! ## Checks -/

namespace Calibration

structure Valid (c : Calibration) : Prop where
  stepsPerUnit_pos : 0 < c.stepsPerUnit
  stepsPerUnit_finite : c.stepsPerUnit.isFinite
  scaleDivider_ne_zero : c.scaleDivider != 0
  scaleDivider_finite : c.scaleDivider.isFinite

theorem checkStepsPerUnit_eq_ok {v : Single} {u : Unit} :
    checkStepsPerUnit v = .ok u ↔ 0 < v ∧ v.isFinite := by
  simp [checkStepsPerUnit]

theorem checkScaleDivider_eq_ok {v : Single} {u : Unit} :
    checkScaleDivider v = .ok u ↔ v != 0 ∧ v.isFinite := by
  simp [checkScaleDivider]

/-- The two checks are what makes constants valid. -/
theorem valid_of_checks {c : Calibration} {u u' : Unit}
    (h : checkStepsPerUnit c.stepsPerUnit = .ok u)
    (h' : checkScaleDivider c.scaleDivider = .ok u') :
    c.Valid := by
  obtain ⟨hpos, hfinite⟩ := checkStepsPerUnit_eq_ok.1 h
  obtain ⟨hne, hfinite'⟩ := checkScaleDivider_eq_ok.1 h'
  exact ⟨hpos, hfinite, hne, hfinite'⟩

theorem Change.set_valid {change : Change} {c : Calibration} (h : change.check = .ok ())
    (hc : c.Valid) : (change.set c).Valid := by
  cases change with
  | stepsPerUnit v =>
    obtain ⟨hpos, hfinite⟩ := checkStepsPerUnit_eq_ok.1 h
    exact { hc with stepsPerUnit_pos := hpos, stepsPerUnit_finite := hfinite }
  | scaleDivider v =>
    obtain ⟨hne, hfinite⟩ := checkScaleDivider_eq_ok.1 h
    exact { hc with scaleDivider_ne_zero := hne, scaleDivider_finite := hfinite }
  | offset v => exact { hc with }

/-- A change that is accepted as a whole passed every check on the way. -/
theorem update_valid {changes : List Change} {c c' : Calibration} (h : c.update changes = .ok c')
    (hc : c.Valid) : c'.Valid := by
  obtain ⟨hchecks, rfl⟩ := update_eq_ok.1 h
  exact List.foldlRecOn changes Change.set hc fun _ hc' change hmem =>
    change.set_valid (forM_check_eq_ok.1 hchecks change hmem) hc'

theorem ofConstants_valid {u d o : Single} {c : Calibration} (h : ofConstants u d o = .ok c) :
    c.Valid := by
  obtain ⟨_, hsteps, hrest⟩ := except_bind_eq_ok.1 h
  obtain ⟨_, hdivider, hset⟩ := except_bind_eq_ok.1 hrest
  cases hset
  exact valid_of_checks hsteps hdivider

end Calibration

/-- The settings of a document that is accepted were looked at as a whole. -/
theorem Config.ofTextBy_valid {read? : Toml.Reader} {text : String} {config : Config}
    (h : ofTextBy read? text = .ok config) : config.calibration.Valid := by
  obtain ⟨es, _, h₁⟩ := except_bind_eq_ok.1 h
  obtain ⟨c, _, h₂⟩ := except_bind_eq_ok.1 h₁
  obtain ⟨_, hvalidate, h₃⟩ := except_bind_eq_ok.1 h₂
  cases h₃
  obtain ⟨_, hsteps, h₄⟩ := except_bind_eq_ok.1 (mapError_eq_ok.1 hvalidate)
  obtain ⟨_, hdivider, _⟩ := except_bind_eq_ok.1 h₄
  exact Calibration.valid_of_checks hsteps hdivider

/-- Constants that a bench can start with. -/
inductive Calibration.Admitted : Calibration → Prop where
  | constants {u d o : Single} {c : Calibration} : ofConstants u d o = .ok c → Admitted c
  | document {read? : Toml.Reader} {text : String} {config : Config} :
    Config.ofTextBy read? text = .ok config → Admitted config.calibration

theorem Calibration.Admitted.valid {c : Calibration} (h : c.Admitted) : c.Valid := by
  cases h with
  | constants h => exact ofConstants_valid h
  | document h => exact Config.ofTextBy_valid h

/-! ## Effects -/

/-- Constants are stored by effects that have checked them. -/
theorem Effect.apply_valid (e : Effect) {b : Bench} (h : b.calibration.Valid) :
    (e.apply b).calibration.Valid := by
  cases e with
  | change changes =>
    simp only [apply]
    split
    · next c hc => exact Calibration.update_valid hc h
    · exact h
  | _ =>
    rw [apply_calibration (by simp)]
    exact h

theorem Bench.Reaches.valid {K : Effect → Prop} {b b' : Bench} (h : Reaches K b b')
    (hb : b.calibration.Valid) : b'.calibration.Valid :=
  h.invariant (P := fun c => c.calibration.Valid) (fun e _ _ hc => e.apply_valid hc) hb

/-! ## Operations -/

/-- What can be done on a bench that may change its constants. -/
inductive Operation where
  /-- A command of a program. -/
  | command (c : Command)
  /-- A load calibration that has come to any of its phases with any means. -/
  | loadCalibration (m : LoadCalibration)
  /-- Changes of any kind, in order. -/
  | update (changes : List Calibration.Change)

namespace Operation

def act : Operation → Action Unit
  | .command c => Action.execute c
  | .loadCalibration m => do let _ ← m.run
  | .update changes => do let _ ← Action.update changes

def Effects : Operation → Effect → Prop
  | .command c, e => c.Effects e
  | .loadCalibration _, e => e.CalibratingLoad
  | .update changes, e => e = .occasion .change ∨ e = .change changes

/-- The bench after an operation, whether it completed, was refused or stopped short. -/
def after (op : Operation) (b : Bench) : Bench :=
  match op.act b with
  | .ok _ b' => b'
  | .error _ b' => b'

theorem act_uses (op : Operation) : Action.Uses op.Effects op.act := by
  cases op with
  | command c => exact Action.execute_uses c
  | loadCalibration m => exact (Action.loadSteps_uses 7 m).bind fun _ => Action.uses_pure _
  | update changes =>
    exact (Action.update_uses (.inl rfl) (.inr rfl)).bind fun _ => Action.uses_pure _

theorem after_reaches (op : Operation) (b : Bench) : Bench.Reaches op.Effects b (op.after b) := by
  unfold after
  split
  · next b' h => exact op.act_uses.reaches_of_ok h
  · next stop b' h => exact op.act_uses.reaches_of_error h

end Operation

/-- The constants that operations leave one after the other. Each finds the constants that the one
before it left, on a bench that may have changed in any other way meanwhile. -/
def Calibration.afterCourse (c : Calibration) (course : List (Operation × Bench)) : Calibration :=
  course.foldl (fun c (op, b) => (op.after { b with calibration := c }).calibration) c

theorem Calibration.Valid.afterCourse {c : Calibration} (h : c.Valid)
    (course : List (Operation × Bench)) : (c.afterCourse course).Valid := by
  induction course generalizing c with
  | nil => exact h
  | cons first course ih =>
    obtain ⟨op, b⟩ := first
    exact ih ((op.after_reaches _).valid h)

/-! ## Runs -/

namespace Action

variable {b b' : Bench}

theorem visit_valid {v : Visit} (h : visit v b = .ok () b') (hb : b.calibration.Valid) :
    b'.calibration.Valid := by
  refine visit_invariant (P := fun c => c.calibration.Valid) ?_ ?_ ?_ h hb
  · exact fun _ _ _ _ hc => hc
  · exact fun command _ _ hexecute hc => ((execute_uses command).reaches_of_ok hexecute).valid hc
  · exact fun command _ _ _ hexecute hc =>
      ((execute_uses command).reaches_of_error hexecute).valid hc

theorem started_valid (hb : b.calibration.Valid) (p : Program) :
    (b.started p).calibration.Valid := by
  rw [(b.started_spared p).calibration]
  exact hb

/-- From constants that a bench can start with, operations of any kind follow one another. The next
one is a sequence of effects, and the constants in force are valid before the first of them and
after each. So are they on the way of a run, before its first line and after every line at whatever
depth of replays. -/
theorem constants_stay_valid {c : Calibration} (hc : c.Admitted)
    (course : List (Operation × Bench)) (hb : b.calibration = c.afterCourse course) :
    (∀ op : Operation, ∃ es, (∀ e ∈ es, op.Effects e) ∧ op.after b = b.afterAll es ∧
      ∀ es', es' <+: es → (b.afterAll es').calibration.Valid) ∧
    ∀ (p : Program) vs d, vs <+: p.visits p.length → visitAll vs (b.started p) = .ok () d →
      d.calibration.Valid := by
  have hvalid : b.calibration.Valid := by
    rw [hb]
    exact hc.valid.afterCourse course
  refine ⟨fun op => ?_, fun p vs d _ hvisits => ?_⟩
  · obtain ⟨es, hes, hafter⟩ := (op.after_reaches b).exists_effects
    refine ⟨es, hes, hafter, fun es' hfront => ?_⟩
    have hes' : ∀ e ∈ es', op.Effects e := fun e he => hes e (hfront.subset he)
    exact (Bench.reaches_afterAll hes' b).valid hvalid
  · exact visitAll_invariant (P := fun c => c.calibration.Valid) (fun _ _ _ => visit_valid) hvisits
      (started_valid hvalid p)

/-- Steps per unit and an offset are set, and then a change is refused for its divider. -/
def refusedChange : List (Operation × Bench) :=
  [(.command (.constants ⟨some 100, none, some 3⟩), plainBench),
    (.update [.stepsPerUnit 7, .scaleDivider 0], plainBench)]

theorem refusedChange_valid :
    let b := { plainBench with calibration := Calibration.initial.afterCourse refusedChange }
    b.calibration.stepsPerUnit == 100 ∧
      ((Operation.command (.calibrateDistance 0.05 10)).after b).calibration.Valid := by
  intro b
  have hadmitted : Calibration.initial.Admitted :=
    .constants (show Calibration.ofConstants 80 1 0 = .ok .initial from rfl)
  obtain ⟨hoperations, _⟩ := constants_stay_valid (b := b) hadmitted refusedChange rfl
  obtain ⟨es, _, hafter, hvalid⟩ := hoperations (.command (.calibrateDistance 0.05 10))
  refine ⟨by decide +kernel, ?_⟩
  rw [hafter]
  exact hvalid es (List.prefix_refl es)

end Action

end LoadBench
