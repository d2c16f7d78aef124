import LoadBench.Command.Basic
import LoadBench.Error

/-!
# Calibration constants

Three constants tie the hardware to engineering units: the steps per unit of distance, and the
divider and offset of the load cell. The steps per unit are positive and finite, the divider is
neither zero nor infinite. A change that would break this is refused, and a refused change leaves
all three as they were.
-/

namespace LoadBench

structure Calibration where
  stepsPerUnit : Single
  scaleDivider : Single
  offset : Single

namespace Calibration

def initial : Calibration := ⟨80, 1, 0⟩

def checkStepsPerUnit (v : Single) : Except SettingError Unit :=
  if 0 < v && v.isFinite then .ok () else .error (.invalidScaleFactor .stepsPerUnit v)

def checkScaleDivider (v : Single) : Except SettingError Unit :=
  if v != 0 && v.isFinite then .ok () else .error (.invalidScaleFactor .scaleDivider v)

/-- Constants that pass their checks; the steps per unit are looked at first. -/
def ofConstants (stepsPerUnit scaleDivider offset : Single) : Except SettingError Calibration := do
  checkStepsPerUnit stepsPerUnit
  checkScaleDivider scaleDivider
  return { stepsPerUnit, scaleDivider, offset }

def load (c : Calibration) (raw : Single) : Single := (raw - c.offset) / c.scaleDivider

inductive Change where
  | stepsPerUnit (v : Single)
  | scaleDivider (v : Single)
  | offset (v : Single)

def Change.apply (c : Calibration) : Change → Except SettingError Calibration
  | .stepsPerUnit v => do checkStepsPerUnit v; return { c with stepsPerUnit := v }
  | .scaleDivider v => do checkScaleDivider v; return { c with scaleDivider := v }
  | .offset v => .ok { c with offset := v }

/-- All changes in order, or the refusal of the first that is refused. -/
def update (c : Calibration) (changes : List Change) : Except SettingError Calibration :=
  changes.foldlM Change.apply c

/-! ## Changes are checked apart from what they change -/

def Change.check : Change → Except SettingError Unit
  | .stepsPerUnit v => checkStepsPerUnit v
  | .scaleDivider v => checkScaleDivider v
  | .offset _ => .ok ()

def Change.set (c : Calibration) : Change → Calibration
  | .stepsPerUnit v => { c with stepsPerUnit := v }
  | .scaleDivider v => { c with scaleDivider := v }
  | .offset v => { c with offset := v }

theorem Change.apply_eq (change : Change) (c : Calibration) :
    change.apply c = do change.check; return change.set c := by
  cases change <;> rfl

/-- Values are set one over the other if every change passes its check. -/
theorem update_eq (c : Calibration) (changes : List Change) :
    c.update changes = do forM changes Change.check; return changes.foldl Change.set c := by
  induction changes generalizing c with
  | nil => rfl
  | cons change changes ih =>
    rw [update, List.foldlM_cons, Change.apply_eq, List.forM_cons, List.foldl_cons]
    cases change.check with
    | error e => rfl
    | ok _ => exact ih (change.set c)

theorem forM_check_eq_ok {changes : List Change} :
    forM changes Change.check = .ok () ↔ ∀ change ∈ changes, change.check = .ok () := by
  induction changes with
  | nil => simp [pure, Except.pure]
  | cons change changes ih =>
    rw [List.forM_cons, List.forall_mem_cons, ← ih]
    cases change.check with
    | error e => simp [bind, Except.bind]
    | ok _ => simp [bind, Except.bind]

theorem update_eq_ok {c c' : Calibration} {changes : List Change} :
    c.update changes = .ok c' ↔
      forM changes Change.check = .ok () ∧ c' = changes.foldl Change.set c := by
  rw [update_eq]
  cases forM changes Change.check with
  | error e => simp [bind, Except.bind]
  | ok _ => simp [bind, Except.bind, pure, Except.pure, eq_comm]

theorem update_eq_error {c : Calibration} {changes : List Change} {e : SettingError} :
    c.update changes = .error e ↔ forM changes Change.check = .error e := by
  rw [update_eq]
  cases forM changes Change.check with
  | error e' => simp [bind, Except.bind]
  | ok _ => simp [bind, Except.bind, pure, Except.pure]

end Calibration

/-- The changes that a command gives, in the order in which they are made. -/
def Constants.changes (given : Constants) : List Calibration.Change :=
  (given.stepsPerUnit.map .stepsPerUnit).toList ++ (given.scaleDivider.map .scaleDivider).toList ++
    (given.offset.map .offset).toList

/-- What is given is set, and the rest stays. -/
theorem Constants.foldl_changes (given : Constants) (c : Calibration) :
    given.changes.foldl Calibration.Change.set c =
      ⟨given.stepsPerUnit.getD c.stepsPerUnit, given.scaleDivider.getD c.scaleDivider,
        given.offset.getD c.offset⟩ := by
  obtain ⟨u, d, o⟩ := given
  cases u <;> cases d <;> cases o <;> rfl

end LoadBench
