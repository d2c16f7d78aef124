import LoadBench.Proofs.Visits

/-!
# Position and steps

The bench keeps its position as a distance, the actuator counts steps, and the steps per unit may
change between two moves. After every line of a run the two agree: either the actuator stands at the
step nearest to the position, as after a move, or the position was worked out from the step count,
as after a change of the steps per unit.
-/

namespace LoadBench

open Float.Model (UnpackedFloat)

/-! ## The origin -/

namespace Single

theorem unpack_mul (x y : Single) : (x * y).unpack =
    UnpackedFloat.unpack .binary32
      (UnpackedFloat.pack .binary32 (.mul .binary32 x.unpack y.unpack)) := rfl

theorem unpack_zero : unpack 0 = .zero .positive := rfl

theorem unpack_pack_zero (s : UnpackedFloat.Sign) :
    UnpackedFloat.unpack .binary32 (UnpackedFloat.pack .binary32 (.zero s)) = .zero s := by
  cases s <;> rfl

theorem unpack_pack_notANumber :
    UnpackedFloat.unpack .binary32 (UnpackedFloat.pack .binary32 .notANumber) = .notANumber := rfl

/-- Zero times anything is a zero, or no number. -/
theorem nearest_zero_mul (lo hi : Int) (x : Single) : nearest lo hi (0 * x) = 0 := by
  rw [nearest, unpack_mul, unpack_zero]
  cases x.unpack with
  | infinity s => exact congrArg (saturate lo hi wholeNearest) unpack_pack_notANumber
  | notANumber => exact congrArg (saturate lo hi wholeNearest) unpack_pack_notANumber
  | zero s => exact congrArg (saturate lo hi wholeNearest) (unpack_pack_zero _)
  | finite s m e h => exact congrArg (saturate lo hi wholeNearest) (unpack_pack_zero _)

end Single

/-- The origin is step zero, whatever the steps per unit. -/
theorem stepsOf_zero (stepsPerUnit : Single) : stepsOf 0 stepsPerUnit = 0 :=
  congrArg Int64.ofInt (Single.nearest_zero_mul _ _ stepsPerUnit)

/-! ## What keeps the steps per unit -/

def Calibration.Change.rescales : Calibration.Change → Prop
  | .stepsPerUnit _ => True
  | _ => False

theorem Calibration.Change.set_stepsPerUnit {change : Change} (h : ¬ change.rescales)
    (c : Calibration) : (change.set c).stepsPerUnit = c.stepsPerUnit := by
  cases change with
  | stepsPerUnit v => exact absurd trivial h
  | _ => rfl

theorem Calibration.update_stepsPerUnit {changes : List Change}
    (h : ∀ change ∈ changes, ¬ change.rescales) {c c' : Calibration}
    (hc : c.update changes = .ok c') : c'.stepsPerUnit = c.stepsPerUnit := by
  obtain ⟨_, rfl⟩ := update_eq_ok.1 hc
  refine List.foldlRecOn changes Change.set (motive := fun c' => c'.stepsPerUnit = c.stepsPerUnit)
    rfl fun c' hc' change hmem => ?_
  rw [change.set_stepsPerUnit (h change hmem), hc']

/-- Only constants that give steps per unit change them. -/
theorem Constants.not_rescales {given : Constants} (h : given.stepsPerUnit = none) :
    ∀ change ∈ given.changes, ¬ change.rescales := by
  intro change hmem
  simp only [changes, h, Option.map_none, Option.toList_none, List.nil_append, List.mem_append,
    Option.mem_toList, Option.map_eq_some_iff] at hmem
  rcases hmem with ⟨v, _, rfl⟩ | ⟨v, _, rfl⟩ <;> exact id

def Effect.Rescales : Effect → Prop
  | .change changes => ∃ change ∈ changes, change.rescales
  | _ => False

theorem Effect.apply_stepsPerUnit {e : Effect} (h : ¬ e.Rescales) (b : Bench) :
    (e.apply b).calibration.stepsPerUnit = b.calibration.stepsPerUnit := by
  cases e with
  | change changes =>
    simp only [apply]
    cases hc : b.calibration.update changes with
    | error e => rfl
    | ok c =>
      exact Calibration.update_stepsPerUnit (fun change hmem hr => h ⟨change, hmem, hr⟩) hc
  | _ => rw [apply_calibration (by simp)]

/-! ## What commands do to position and steps -/

def Command.target? : Command → Option Single
  | .move target _ _ | .calibrateDistance target _ => some target
  | _ => none

/-- Nothing moved, and the steps per unit are the same. -/
structure Bench.Stays (b b' : Bench) : Prop where
  unmoved : b.Unmoved b'
  scale : b'.calibration.stepsPerUnit = b.calibration.stepsPerUnit

/-- What a command does to position and steps, whether it completes or is refused. -/
inductive Command.Places (c : Command) (b b' : Bench) : Prop where
  | stays (stays : b.Stays b')
  /-- The actuator went to the target, and the steps per unit are the same. -/
  | arrives {x : Single} (target : c.target? = some x)
    (scale : b'.calibration.stepsPerUnit = b.calibration.stepsPerUnit)
    (steps : b'.actuator.position = stepsOf x b.calibration.stepsPerUnit) (position : b'.position = x)
  /-- The actuator stands still or went to the target, and the position was worked out anew. -/
  | rebases (steps : b'.actuator.position = b.actuator.position ∨ ∃ x, c.target? = some x ∧
      b'.actuator.position = stepsOf x b.calibration.stepsPerUnit)
    (position : b'.position = distanceOf b'.actuator.position b'.calibration.stepsPerUnit)

theorem Bench.Reaches.stays {K : Effect → Prop} (hK : ∀ e, K e → e.Still ∧ ¬ e.Rescales)
    {b b' : Bench} (h : Reaches K b b') : b.Stays b' where
  unmoved := h.unmoved fun e he => (hK e he).1
  scale := h.frame (·.calibration.stepsPerUnit) fun e he => Effect.apply_stepsPerUnit (hK e he).2

namespace Action

variable {b b' : Bench}

/-- A move ends at its target, in the constants of its start. -/
theorem execute_move_places {target feedrate : Single} {samples : Int}
    (h : execute (.move target feedrate samples) b = .ok () b') :
    (Command.move target feedrate samples).Places b b' := by
  rw [execute, get_bind_apply] at h
  obtain ⟨report, c, hmove, hcount⟩ := bind_eq_ok.1 h
  obtain ⟨_, hsteps, hposition⟩ := move_ok hmove
  have hsame : c.calibration = b.calibration := by
    refine ((move_uses _ _ _ _).reaches_of_ok hmove).frame (·.calibration) fun e he c => ?_
    refine Effect.apply_calibration ?_ c
    rintro changes rfl
    exact he
  cases hcount
  exact .arrives rfl (congrArg Calibration.stepsPerUnit hsame) hsteps hposition

/-- With steps per unit the position is worked out anew before anything else is told. -/
theorem announce_eq {given : Constants} (h : given.stepsPerUnit.isSome) (c : Calibration) :
    announce given c = (modify (·.rebased c.stepsPerUnit) >>= fun _ =>
      announce { given with stepsPerUnit := none } c) := by
  simp [announce, h]

theorem announce_stays {given : Constants} (hgiven : given.stepsPerUnit = none)
    {c : Calibration} (h : announce given c b = .ok () b') : b.Stays b' := by
  refine ((announce_uses given c).reaches_of_ok h).stays ?_
  intro e he
  cases e <;> simp_all [Effect.Announcing, Effect.Still, Effect.Rescales]

/-- New constants keep the step count and reckon the position from it. -/
theorem execute_constants_places {given : Constants}
    (h : execute (.constants given) b = .ok () b') : (Command.constants given).Places b b' := by
  change setConstants given b = _ at h
  rw [setConstants_eq] at h
  obtain ⟨c, b₁, hchange, hannounce⟩ := bind_eq_ok.1 h
  obtain ⟨hc, rfl⟩ := change_ok hchange
  have hstill := b.afterOccasion_unmoved .change
  cases hgiven : given.stepsPerUnit with
  | none =>
    have hscale := Calibration.update_stepsPerUnit (Constants.not_rescales hgiven) hc
    have hstays := announce_stays hgiven hannounce
    have hunmoved : b.Unmoved { b.afterOccasion .change with calibration := c } :=
      ⟨hstill.actuator, hstill.clock, hstill.position⟩
    exact .stays ⟨hunmoved.trans hstays.unmoved, hstays.scale.trans hscale⟩
  | some u =>
    rw [announce_eq (by rw [hgiven]; rfl), modify_bind_apply] at hannounce
    have hstays := announce_stays rfl hannounce
    refine .rebases (.inl ?_) ?_
    · rw [hstays.unmoved.actuator]
      exact congrArg Actuator.position hstill.actuator
    · rw [hstays.unmoved.position, hstays.unmoved.actuator, hstays.scale]
      rfl

theorem update_stepsPerUnit_ok {c c' : Calibration} {u : Single}
    (h : c.update [.stepsPerUnit u] = .ok c') : c'.stepsPerUnit = u := by
  obtain ⟨_, rfl⟩ := Calibration.update_eq_ok.1 h
  rfl

/-- A calibrated distance ends at its target, in steps of the old constants. -/
theorem calibrateDistance_ok {target feedrate : Single} {r : DistanceReport}
    (h : calibrateDistance target feedrate b = .ok r b') :
    b'.actuator.position = stepsOf target b.calibration.stepsPerUnit ∧
      b'.position = distanceOf b'.actuator.position b'.calibration.stepsPerUnit := by
  rw [calibrateDistance_eq, get_bind_apply] at h
  split at h
  · cases h
  · rw [calibrateBy, note_bind_apply] at h
    obtain ⟨_, b₁, _, h₁⟩ := bind_eq_ok.1 h
    obtain ⟨_, b₂, hmove, h₂⟩ := bind_eq_ok.1 h₁
    obtain ⟨⟨u, _⟩, b₃, hask, h₃⟩ := bind_eq_ok.1 h₂
    obtain ⟨c, b₄, hchange, h₄⟩ := bind_eq_ok.1 h₃
    obtain ⟨_, hsteps, _⟩ := move_ok hmove
    have hasked := (measuring_spares ((askDistance_uses _).mono fun _ he => he.measuring) hask).2
    obtain ⟨hc, rfl⟩ := change_ok hchange
    cases h₄
    have hu := update_stepsPerUnit_ok hc
    refine ⟨?_, congrArg (distanceOf _) hu.symm⟩
    rw [← hsteps, ← hasked.actuator]
    exact congrArg Actuator.position (b₃.afterOccasion_unmoved .change).actuator

/-- A command that completes takes the bench to its target, rebases it, or leaves both counts. -/
theorem execute_places {c : Command} (h : execute c b = .ok () b') : c.Places b b' := by
  cases c with
  | move target feedrate samples => exact execute_move_places h
  | wait seconds =>
    refine .stays (((execute_uses _).reaches_of_ok h).stays ?_)
    intro e he
    cases e <;> simp_all [Command.Effects, Effect.Waiting, Effect.Still, Effect.Rescales]
  | replay cycles =>
    cases h
    exact .stays ⟨.refl b, rfl⟩
  | constants given => exact execute_constants_places h
  | calibrateLoad reference =>
    refine .stays (((execute_uses _).reaches_of_ok h).stays ?_)
    intro e he
    rcases he with he | ⟨why, rfl⟩
    · cases e with
      | change changes =>
        obtain ⟨divider, offset, rfl⟩ := he
        simp [Effect.Still, Effect.Rescales, Calibration.Change.rescales]
      | _ => simp_all [Effect.CalibratingLoad, Effect.Still, Effect.Rescales]
    · exact ⟨trivial, id⟩
  | calibrateDistance target feedrate =>
    obtain ⟨report, c, hcalibrate, hend⟩ := bind_eq_ok.1 h
    cases hend
    obtain ⟨hsteps, hposition⟩ := calibrateDistance_ok hcalibrate
    exact .rebases (.inr ⟨target, rfl, hsteps⟩) hposition

/-- Of the refused commands only a distance calibration has moved, to its target. -/
theorem execute_refused_places {c : Command} {why : Refusal}
    (h : execute c b = .error (.refused why) b') : c.Places b b' := by
  have hscale := congrArg Calibration.stepsPerUnit (execute_refused_spares h).calibration
  cases c with
  | move target feedrate samples =>
    rw [execute_move_refused h]
    exact .stays ⟨.refl b, rfl⟩
  | wait seconds => exact absurd h execute_wait_not_refused
  | replay cycles => cases h
  | constants given => exact .stays ⟨(setConstants_refused h).2, hscale⟩
  | calibrateLoad reference => exact .stays ⟨(execute_calibrateLoad_refused h).2, hscale⟩
  | calibrateDistance target feedrate =>
    rcases (execute_calibrateDistance_refused h).2 with hunmoved | hstranded
    · exact .stays ⟨hunmoved, hscale⟩
    · exact .arrives rfl hscale hstranded.steps hstranded.position

end Action

/-! ## Agreement -/

namespace Bench

/-- Position and step count agree under the steps per unit in force. -/
def Aligned (b : Bench) : Prop :=
  b.actuator.position = stepsOf b.position b.calibration.stepsPerUnit ∨
    b.position = distanceOf b.actuator.position b.calibration.stepsPerUnit

variable {b b' : Bench}

theorem aligned_of_origin (h : b.actuator.position = 0) (h' : b.position = 0) : b.Aligned := by
  left
  rw [h, h', stepsOf_zero]

theorem Aligned.of_stays (hb : b.Aligned) (h : b.Stays b') : b'.Aligned := by
  unfold Aligned
  rw [h.unmoved.actuator, h.unmoved.position, h.scale]
  exact hb

theorem Aligned.placed (hb : b.Aligned) {c : Command} (h : c.Places b b') : b'.Aligned := by
  cases h with
  | stays h => exact hb.of_stays h
  | arrives _ hscale hsteps hposition =>
    left
    rw [hposition, hscale, hsteps]
  | rebases _ hposition => exact .inr hposition

end Bench

namespace Action

variable {b b' : Bench}

/-- Whatever a line of a run comes to, position and steps agree after it. -/
theorem visit_aligned {v : Visit} (h : visit v b = .ok () b') (hb : b.Aligned) : b'.Aligned :=
  visit_invariant (fun _ _ _ _ hc => hc) (fun _ _ _ h hc => hc.placed (execute_places h))
    (fun _ _ _ _ h hc => hc.placed (execute_refused_places h)) h hb

theorem started_steps (b : Bench) (p : Program) :
    (b.started p).actuator.position = b.actuator.position := by
  have hstill := Bench.afterOccasion_unmoved
    { b.noted (.runStarted p.length p.errorCount) with tally := {} } .enable
  rw [Bench.started, Bench.energised, hstill.actuator]
  rfl

theorem started_position (b : Bench) (p : Program) : (b.started p).position = b.position :=
  (Bench.afterOccasion_unmoved
    { b.noted (.runStarted p.length p.errorCount) with tally := {} } .enable).position

theorem started_aligned (hb : b.Aligned) (p : Program) : (b.started p).Aligned := by
  have hscale := congrArg Calibration.stepsPerUnit (b.started_spared p).calibration
  unfold Bench.Aligned
  rw [hscale, started_steps, started_position]
  exact hb

/-- A run that starts at the origin makes its visits one after the other, and after every single
one of them, at whatever depth of replays, position and steps agree. -/
theorem run_aligned (p : Program) (hsteps : b.actuator.position = 0) (hposition : b.position = 0) :
    runFront p p.length = visitAll (p.visits p.length) ∧
      ∀ vs c, vs <+: p.visits p.length → visitAll vs (b.started p) = .ok () c → c.Aligned := by
  refine ⟨runFront_eq p p.length, ?_⟩
  intro vs c _ h
  have hstarted := started_aligned (Bench.aligned_of_origin hsteps hposition) p
  exact visitAll_invariant (fun _ _ _ => visit_aligned) h hstarted

/-- A move, another number of steps per unit, and both again. -/
def rescaledReplay : Program :=
  [⟨"", .ok (.move 0.05 10 0)⟩, ⟨"", .ok (.constants ⟨some 100, none, none⟩)⟩, ⟨"", .ok (.replay 1)⟩]

theorem rescaledReplay_aligned : ∃ c,
    visitAll (rescaledReplay.visits rescaledReplay.length) (plainBench.started rescaledReplay) =
      .ok () c ∧ c.Aligned := by
  have hcompletes : (visitAll (rescaledReplay.visits rescaledReplay.length)).completes
      (plainBench.started rescaledReplay) := by
    decide +kernel
  obtain ⟨_, c, h⟩ := exists_of_completes hcompletes
  obtain ⟨_, haligned⟩ := run_aligned (b := plainBench) rescaledReplay rfl rfl
  exact ⟨c, h, haligned _ c (List.prefix_refl _) h⟩

end Action

end LoadBench
