import LoadBench.Proofs.MeasuredMove
import LoadBench.Proofs.Validity

/-!
# The last accepted setting is in force

Constants are set by commands that give any of the three, and by changes one after the other. Whether
a setting is accepted depends on the values that it gives and on nothing else. One that is refused
sets no constant, also none that it gives a good value. So each constant has the value that the last
accepted setting gave it, whatever the other settings gave and whatever came of them.
-/

namespace LoadBench

/-- Steps that each write a value or leave the old one: the last value written is there. -/
theorem foldl_last_write {σ ι α : Type} {f : σ → ι → σ} {g : σ → α} {w : ι → Option α}
    (hstep : ∀ s i, g (f s i) = (w i).getD (g s)) (is : List ι) (s : σ) :
    g (is.foldl f s) = (is.filterMap w).getLast?.getD (g s) := by
  induction is generalizing s with
  | nil => rfl
  | cons i is ih =>
    rw [List.foldl_cons, ih, hstep]
    cases hi : w i with
    | none => rw [List.filterMap_cons_none hi, Option.getD_none]
    | some v => rw [List.filterMap_cons_some hi, List.getLast?_cons, Option.getD_some, Option.getD_some]

namespace Calibration

/-! ## Changes, constant by constant -/

inductive Constant where
  | stepsPerUnit
  | scaleDivider
  | offset
  deriving DecidableEq

def get (c : Calibration) : Constant → Single
  | .stepsPerUnit => c.stepsPerUnit
  | .scaleDivider => c.scaleDivider
  | .offset => c.offset

/-- Values that pass the check of a constant. -/
def Constant.admits : Constant → Single → Bool
  | .stepsPerUnit, v => 0 < v && v.isFinite
  | .scaleDivider, v => v != 0 && v.isFinite
  | .offset, _ => true

namespace Change

/-- The constant that a change is about, and the value that it gives. -/
def target : Change → Constant × Single
  | .stepsPerUnit v => (.stepsPerUnit, v)
  | .scaleDivider v => (.scaleDivider, v)
  | .offset v => (.offset, v)

def gives (k : Constant) (change : Change) : Option Single :=
  if change.target.1 = k then some change.target.2 else none

def admitted (change : Change) : Bool := change.target.1.admits change.target.2

theorem check_eq_ok {change : Change} : change.check = .ok () ↔ change.admitted = true := by
  cases change with
  | stepsPerUnit v => simp [check, checkStepsPerUnit_eq_ok, admitted, target, Constant.admits]
  | scaleDivider v => simp [check, checkScaleDivider_eq_ok, admitted, target, Constant.admits]
  | offset v => exact ⟨fun _ => rfl, fun _ => rfl⟩

def refusal? (change : Change) : Option SettingError :=
  match change.check with
  | .ok _ => none
  | .error e => some e

theorem refusal?_eq_none {change : Change} :
    change.refusal? = none ↔ change.admitted = true := by
  rw [← check_eq_ok, refusal?]
  cases change.check with
  | ok _ => exact ⟨fun _ => rfl, fun _ => rfl⟩
  | error e => exact ⟨nofun, nofun⟩

theorem get_set (k : Constant) (c : Calibration) (change : Change) :
    (change.set c).get k = (change.gives k).getD (c.get k) := by
  cases change <;> cases k <;> rfl

end Change

theorem get_foldl_set (k : Constant) (changes : List Change) (c : Calibration) :
    (changes.foldl Change.set c).get k =
      (changes.filterMap (Change.gives k)).getLast?.getD (c.get k) :=
  foldl_last_write (g := (·.get k)) (Change.get_set k) changes c

/-- The checks stop at the first change that fails its own. -/
theorem forM_check_eq (changes : List Change) :
    forM changes Change.check =
      match changes.findSome? Change.refusal? with
      | none => .ok ()
      | some e => .error e := by
  induction changes with
  | nil => rfl
  | cons change changes ih =>
    rw [List.forM_cons, List.findSome?_cons, Change.refusal?]
    cases change.check with
    | error e => rfl
    | ok _ => exact ih

theorem findSome?_refusal?_eq_none {changes : List Change} :
    changes.findSome? Change.refusal? = none ↔ changes.all Change.admitted = true := by
  simp only [List.findSome?_eq_none_iff, List.all_eq_true, Change.refusal?_eq_none]

theorem update_of_admitted {changes : List Change} (h : changes.all Change.admitted = true)
    (c : Calibration) : c.update changes = .ok (changes.foldl Change.set c) := by
  refine update_eq_ok.2 ⟨?_, rfl⟩
  rw [forM_check_eq, findSome?_refusal?_eq_none.2 h]

/-- Changes with one that fails its check are refused for the first that does. -/
theorem exists_update_eq_error {changes : List Change} (h : ¬ changes.all Change.admitted = true) :
    ∃ e, changes.findSome? Change.refusal? = some e ∧
      ∀ c : Calibration, c.update changes = .error e := by
  obtain ⟨e, he⟩ := Option.ne_none_iff_exists'.1 (mt findSome?_refusal?_eq_none.1 h)
  refine ⟨e, he, fun c => update_eq_error.2 ?_⟩
  rw [forM_check_eq, he]

end Calibration

/-! ## Commands that set constants -/

namespace Constants

open Calibration

def gives (given : Constants) : Constant → Option Single
  | .stepsPerUnit => given.stepsPerUnit
  | .scaleDivider => given.scaleDivider
  | .offset => given.offset

def admitted (given : Constants) : Bool :=
  [.stepsPerUnit, .scaleDivider, .offset].all fun k => (given.gives k).all k.admits

theorem all_changes_admitted (given : Constants) :
    given.changes.all Change.admitted = given.admitted := by
  obtain ⟨u, d, o⟩ := given
  cases u <;> cases d <;> cases o <;> rfl

theorem getLast?_changes_gives (given : Constants) (k : Constant) :
    (given.changes.filterMap (Change.gives k)).getLast? = given.gives k := by
  obtain ⟨u, d, o⟩ := given
  cases u <;> cases d <;> cases o <;> cases k <;> rfl

end Constants

namespace Action

variable {b : Bench}

/-- What follows an accepted change keeps the constants, and is never refused. -/
theorem exists_announce_ok (given : Constants) (c : Calibration) (b : Bench) :
    ∃ b', announce given c b = .ok () b' ∧ b'.calibration = b.calibration := by
  obtain ⟨u, d, o⟩ := given
  cases u <;> cases d <;> cases o <;> exact ⟨_, rfl, rfl⟩

/-- Constants that are admitted are all stored, in the order given. -/
theorem exists_execute_constants_ok {given : Constants} (h : given.admitted = true) (b : Bench) :
    ∃ b', execute (.constants given) b = .ok () b' ∧
      b'.calibration = given.changes.foldl Calibration.Change.set b.calibration := by
  rw [← given.all_changes_admitted] at h
  obtain ⟨b', hannounce, hsame⟩ := exists_announce_ok given
    (given.changes.foldl Calibration.Change.set b.calibration)
    { b.afterOccasion .change with
      calibration := given.changes.foldl Calibration.Change.set b.calibration }
  refine ⟨b', ?_, hsame⟩
  change setConstants given b = _
  rw [setConstants_eq, bind_of_ok (change_of_ok (Calibration.update_of_admitted h b.calibration))]
  exact hannounce

theorem exists_execute_constants_refused {given : Constants} (h : ¬ given.admitted = true)
    (b : Bench) : ∃ e b', given.changes.findSome? Calibration.Change.refusal? = some e ∧
      execute (.constants given) b = .error (.refused (.setting e)) b' ∧
      b'.calibration = b.calibration := by
  rw [← given.all_changes_admitted] at h
  obtain ⟨e, he, hupdate⟩ := Calibration.exists_update_eq_error h
  refine ⟨e, b.afterOccasion .change, he, ?_, (b.afterOccasion_spared .change).calibration⟩
  change setConstants given b = _
  rw [setConstants_eq]
  exact bind_eq_error.2 (.inl (change_of_error (hupdate b.calibration)))

theorem exists_update_ok {changes : List Calibration.Change}
    (h : changes.all Calibration.Change.admitted = true) (b : Bench) :
    ∃ c b', update changes b = .ok (.ok c) b' ∧ b'.calibration = c ∧
      c = changes.foldl Calibration.Change.set b.calibration := by
  have hsame := (b.afterOccasion_spared .change).calibration
  have hupdate := Calibration.update_of_admitted h b.calibration
  refine ⟨_, _, update_eq_ok.2 ⟨hupdate.symm, rfl⟩, ?_, rfl⟩
  simp only [Effect.apply, hsame, hupdate]

theorem exists_update_refused {changes : List Calibration.Change}
    (h : ¬ changes.all Calibration.Change.admitted = true) (b : Bench) :
    ∃ e b', changes.findSome? Calibration.Change.refusal? = some e ∧
      update changes b = .ok (.error e) b' ∧ b'.calibration = b.calibration := by
  have hsame := (b.afterOccasion_spared .change).calibration
  obtain ⟨e, he, hupdate⟩ := Calibration.exists_update_eq_error h
  refine ⟨e, _, he, update_eq_ok.2 ⟨(hupdate b.calibration).symm, rfl⟩, ?_⟩
  rw [change_apply_of_error (hsame ▸ hupdate b.calibration), hsame]

end Action

namespace Operation

variable {b b' : Bench}

theorem after_command_of_ok {c : Command} (h : Action.execute c b = .ok () b') :
    (command c).after b = b' := by
  rw [after, act, h]

theorem after_command_of_error {c : Command} {stop : Stop}
    (h : Action.execute c b = .error stop b') : (command c).after b = b' := by
  rw [after, act, h]

theorem after_update {changes : List Calibration.Change} {r : Except SettingError Calibration}
    (h : Action.update changes b = .ok r b') : (update changes).after b = b' := by
  rw [after, act, Action.bind_of_ok h]
  rfl

end Operation

/-! ## One setting after the other -/

/-- A way to set constants: by a command, or by changes in order. -/
inductive Setting where
  | command (given : Constants)
  | update (changes : List Calibration.Change)

namespace Setting

open Calibration (Constant)

def operation : Setting → Operation
  | .command given => .command (.constants given)
  | .update changes => .update changes

def admitted : Setting → Bool
  | .command given => given.admitted
  | .update changes => changes.all Calibration.Change.admitted

/-- What a setting gives a constant, the last value if there are many. -/
def gives (k : Constant) : Setting → Option Single
  | .command given => given.gives k
  | .update changes => (changes.filterMap (Calibration.Change.gives k)).getLast?

def writes (k : Constant) (s : Setting) : Option Single := if s.admitted then s.gives k else none

def changes : Setting → List Calibration.Change
  | .command given => given.changes
  | .update changes => changes

theorem getLast?_changes_gives (s : Setting) (k : Constant) :
    (s.changes.filterMap (Calibration.Change.gives k)).getLast? = s.gives k := by
  cases s with
  | command given => exact given.getLast?_changes_gives k
  | update changes => rfl

/-- An operation that is admitted makes its changes. -/
theorem after_of_admitted {s : Setting} (h : s.admitted = true) (b : Bench) :
    (s.operation.after b).calibration =
      s.changes.foldl Calibration.Change.set b.calibration := by
  cases s with
  | command given =>
    obtain ⟨b', hexecute, hset⟩ := Action.exists_execute_constants_ok h b
    rw [operation, Operation.after_command_of_ok hexecute]
    exact hset
  | update changes =>
    obtain ⟨c, b', hupdate, rfl, hset⟩ := Action.exists_update_ok h b
    rw [operation, Operation.after_update hupdate]
    exact hset

/-- An operation that is not admitted changes no constant. -/
theorem after_of_not_admitted {s : Setting} (h : ¬ s.admitted = true) (b : Bench) :
    (s.operation.after b).calibration = b.calibration := by
  cases s with
  | command given =>
    obtain ⟨e, b', _, hexecute, hsame⟩ := Action.exists_execute_constants_refused h b
    rw [operation, Operation.after_command_of_error hexecute]
    exact hsame
  | update changes =>
    obtain ⟨e, b', _, hupdate, hsame⟩ := Action.exists_update_refused h b
    rw [operation, Operation.after_update hupdate]
    exact hsame

/-- A setting leaves what it puts in force, and else what was in force before. -/
theorem get_after (s : Setting) (k : Constant) (b : Bench) :
    (s.operation.after b).calibration.get k = (s.writes k).getD (b.calibration.get k) := by
  by_cases h : s.admitted = true
  · rw [after_of_admitted h, Calibration.get_foldl_set, s.getLast?_changes_gives, writes, if_pos h]
  · rw [after_of_not_admitted h, writes, if_neg h, Option.getD_none]

end Setting

namespace Calibration

/-- A command succeeds exactly if every value that it gives passes its check, whatever the bench is
like, and so do changes in order; else the first value that fails says why, and every constant stays
as it was. After any settings, each on a bench that may have changed otherwise since the one before,
each constant has the value that the last of those gave it that succeeded and gave it one, and the
value that it had at first if none did. -/
theorem last_setting_in_force :
    (∀ (given : Constants) (b : Bench),
      if given.admitted then ∃ b', Action.execute (.constants given) b = .ok () b'
      else ∃ e b', given.changes.findSome? Change.refusal? = some e ∧
        Action.execute (.constants given) b = .error (.refused (.setting e)) b' ∧
        b'.calibration = b.calibration) ∧
    (∀ (changes : List Change) (b : Bench),
      if changes.all Change.admitted then
        ∃ c b', Action.update changes b = .ok (.ok c) b' ∧ b'.calibration = c
      else ∃ e b', changes.findSome? Change.refusal? = some e ∧
        Action.update changes b = .ok (.error e) b' ∧ b'.calibration = b.calibration) ∧
    ∀ (c : Calibration) (settings : List (Setting × Bench)) (k : Constant),
      (c.afterCourse (settings.map fun (s, b) => (s.operation, b))).get k =
        (settings.filterMap fun (s, _) => s.writes k).getLast?.getD (c.get k) := by
  refine ⟨fun given b => ?_, fun changes b => ?_, fun c settings k => ?_⟩
  · split
    · next h =>
      obtain ⟨b', hexecute, _⟩ := Action.exists_execute_constants_ok h b
      exact ⟨b', hexecute⟩
    · next h => exact Action.exists_execute_constants_refused h b
  · split
    · next h =>
      obtain ⟨c, b', hupdate, hforce, _⟩ := Action.exists_update_ok h b
      exact ⟨c, b', hupdate, hforce⟩
    · next h => exact Action.exists_update_refused h b
  · rw [afterCourse, List.foldl_map]
    have hstep (c' : Calibration) (i : Setting × Bench) :
        (i.1.operation.after { i.2 with calibration := c' }).calibration.get k =
          (i.1.writes k).getD (c'.get k) := i.1.get_after k _
    exact foldl_last_write (g := (·.get k)) hstep settings c

/-- Steps per unit and an offset are set. A command is refused for its divider, with the good steps
per unit that it also gives, and changes set the offset twice. -/
def overlappingSettings : List (Setting × Bench) :=
  [(.command ⟨some 100, none, some 3⟩, Action.plainBench),
    (.command ⟨some 50, some 0, none⟩, Action.plainBench),
    (.update [.offset 4, .scaleDivider (-2), .offset 5], Action.plainBench)]

example :
    let c := initial.afterCourse (overlappingSettings.map fun (s, b) => (s.operation, b))
    (c.stepsPerUnit == 100 && c.scaleDivider == -2 && c.offset == 5) = true := by
  decide +kernel

end Calibration

end LoadBench
