import LoadBench.Proofs.Footprint
import LoadBench.Proofs.Itinerary
import LoadBench.Proofs.Replies

/-!
# A distance calibration from end to end

A distance calibration that has steps to go takes one reply as an acknowledgement, moves, and takes
further replies up to the first positive number. Steps and number make the steps per unit, which are
in force from then on, or are refused if they fail their check.
-/

namespace LoadBench

/-! ## What waits and moves leave alone -/

theorem Effect.Waiting.keeps_ticksLeft {e : Effect} (h : e.Waiting) (b : Bench) :
    (e.apply b).ticksLeft = b.ticksLeft := by
  cases e with
  | occasion o => exact b.afterOccasion_ticksLeft o
  | note | pause | poll => rfl
  | _ => exact h.elim

/-- Only polls and pauses touch the operator and the delays. -/
theorem Effect.apply_idled {e : Effect} (hpoll : e ≠ .poll) (hpause : ∀ millis, e ≠ .pause millis)
    (b : Bench) : b.Idled (e.apply b) := by
  cases e with
  | occasion o => exact b.afterOccasion_idled o
  | post r =>
    obtain ⟨log, heq⟩ := Bench.posted_eq b r
    rw [apply, heq]
    exact ⟨rfl, rfl, rfl⟩
  | change changes =>
    simp only [apply]
    split <;> exact ⟨rfl, rfl, rfl⟩
  | poll => exact absurd rfl hpoll
  | pause millis => exact absurd rfl (hpause millis)
  | _ => exact ⟨rfl, rfl, rfl⟩

theorem Bench.Idled.trans {b b' b'' : Bench} (h : b.Idled b') (h' : b'.Idled b'') : b.Idled b'' where
  operator := h'.operator.trans h.operator
  delays := h'.delays.trans h.delays
  delaysLeft := h'.delaysLeft.trans h.delaysLeft

/-- The bench waited for the operator: nothing moved, no constant changed and no request was posted,
and all ticks are left. -/
structure Bench.Waited (b b' : Bench) : Prop where
  spared : b.Spared b'
  unmoved : b.Unmoved b'
  ticksLeft : b'.ticksLeft = b.ticksLeft

/-- The bench went so many steps, to where a distance is, and did nothing else. -/
structure Bench.Went (b b' : Bench) (target : Single) (steps : Steps) : Prop where
  spared : b.Spared b'
  idled : b.Idled b'
  stands : b'.actuator.position = b.actuator.position + steps
  taken : b'.actuator.taken = b.actuator.taken + steps.toInt.natAbs
  position : b'.position = target

def Bench.adopted (b : Bench) (r : DistanceReport) : Bench :=
  (({ b.afterOccasion .change with
    calibration := { b.calibration with stepsPerUnit := r.stepsPerUnit } } : Bench).rebased
      r.stepsPerUnit).noted (.distanceCalibrated r.stepsPerUnit r.previous)

namespace Action

variable {b b' : Bench}

theorem waited_of_ok {α : Type} {act : Action α} (hact : Uses Effect.Waiting act) {a : α}
    (h : act b = .ok a b') : b.Waited b' := by
  obtain ⟨hspared, hunmoved⟩ := measuring_spares (hact.mono fun _ he => he.measuring) h
  exact ⟨hspared, hunmoved, (hact.reaches_of_ok h).frame _ fun e he => he.keeps_ticksLeft⟩

/-- A move without samples leaves the operator alone. -/
theorem move_idles {target feedrate u : Single} {r : MoveReport}
    (h : move target feedrate 0 u b = .ok r b') : b.Idled b' := by
  refine ((move_uses target feedrate 0 u).reaches_of_ok h).invariant (P := b.Idled) ?_ ⟨rfl, rfl, rfl⟩
  intro e he c hc
  refine hc.trans (Effect.apply_idled ?_ ?_ c)
  · rintro rfl
    exact he
  · rintro millis rfl
    exact he

/-- A move without samples, at a feedrate that makes a speed and with the ticks that it needs. -/
theorem move_goes {target feedrate u : Single} (hfeedrate : 0 < feedrate)
    (hspeed : 0 < stepRate feedrate u)
    (hticks : (stepsOf target u - b.actuator.position).toInt.natAbs ≤ b.ticksLeft) :
    ∃ r b', move target feedrate 0 u b = .ok r b' ∧
      b.Went b' target (stepsOf target u - b.actuator.position) := by
  have hplan : Plan.make b.actuator.position target feedrate u =
      .ok ⟨b.actuator.position, stepsOf target u, stepRate feedrate u⟩ := if_pos hfeedrate
  obtain ⟨r, b', _, hmove, htraces⟩ : ∃ r b' ks, move target feedrate 0 u b = .ok r b' ∧
      r.Traces ⟨b.actuator.position, stepsOf target u, stepRate feedrate u⟩ target u 0 ks b b' := by
    rw [move_of_plan hplan]
    exact drive_trace_of_nonpos (Int.le_refl 0) (start_of_plan hplan) hspeed hticks
  refine ⟨r, b', hmove, move_spares hmove, move_idles hmove, ?_, htraces.taken, htraces.position⟩
  rw [htraces.arrived, Int64.add_comm, Int64.sub_add_cancel]

theorem move_of_not_pos {target feedrate u : Single} (h : ¬ 0 < feedrate) (b : Bench) :
    move target feedrate 0 u b = .error (.refused (.motion (.invalidFeedrate feedrate))) b := by
  have hplan : Plan.make b.actuator.position target feedrate u =
      .error (.invalidFeedrate feedrate) := if_neg h
  rw [move_eq, get_bind_apply, hplan]
  rfl

/-! ## The change at the end -/

theorem change_of_ok {changes : List Calibration.Change} {c : Calibration}
    (h : b.calibration.update changes = .ok c) :
    change changes b = .ok c { b.afterOccasion .change with calibration := c } := by
  have hsame := (b.afterOccasion_spared .change).calibration
  rw [change, bind_of_ok (update_eq_ok.2 ⟨rfl, rfl⟩), h]
  refine accept_eq_ok.2 ⟨rfl, ?_⟩
  simp only [Effect.apply, hsame, h]

theorem change_of_error {changes : List Calibration.Change} {e : SettingError}
    (h : b.calibration.update changes = .error e) :
    change changes b = .error (.refused (.setting e)) (b.afterOccasion .change) := by
  have hsame := (b.afterOccasion_spared .change).calibration
  rw [change, bind_of_ok (update_eq_ok.2 ⟨rfl, rfl⟩), h,
    change_apply_of_error (hsame ▸ h)]
  rfl

/-- New steps per unit that pass their check replace the old ones and nothing else. -/
theorem update_stepsPerUnit_of_ok {u : Single} (h : Calibration.checkStepsPerUnit u = .ok ())
    (c : Calibration) : c.update [.stepsPerUnit u] = .ok { c with stepsPerUnit := u } :=
  Calibration.update_eq_ok.2 ⟨by simp [Calibration.Change.check, h], rfl⟩

theorem update_stepsPerUnit_of_error {u : Single} {e : SettingError}
    (h : Calibration.checkStepsPerUnit u = .error e) (c : Calibration) :
    c.update [.stepsPerUnit u] = .error e :=
  Calibration.update_eq_error.2 (by simp [Calibration.Change.check, h])

/-- The end of a distance calibration, which puts its result in force. -/
def adopt (r : DistanceReport) : Action DistanceReport := do
  let _ ← change [.stepsPerUnit r.stepsPerUnit]
  modify (·.rebased r.stepsPerUnit)
  note (.distanceCalibrated r.stepsPerUnit r.previous)
  return r

theorem adopt_of_ok {r : DistanceReport} (h : Calibration.checkStepsPerUnit r.stepsPerUnit = .ok ())
    (b : Bench) : adopt r b = .ok r (b.adopted r) := by
  rw [adopt, bind_of_ok (change_of_ok (update_stepsPerUnit_of_ok h _)), modify_bind_apply,
    note_bind_apply]
  rfl

theorem adopt_of_error {r : DistanceReport} {e : SettingError}
    (h : Calibration.checkStepsPerUnit r.stepsPerUnit = .error e) (b : Bench) :
    adopt r b = .error (.refused (.setting e)) (b.afterOccasion .change) :=
  bind_eq_error.2 (.inl (change_of_error (update_stepsPerUnit_of_error h _)))

end Action

/-! ## From end to end -/

/-- How far a calibration move to a target goes from where the actuator stands, in steps. -/
def Bench.stepsTo (b : Bench) (target : Single) : Steps :=
  stepsOf target b.calibration.stepsPerUnit - b.actuator.position

/-- A calibration move was made and answered: the actuator went so many steps, no request was posted,
and of the replies these are left. -/
structure Bench.Measured (b b' : Bench) (commanded : Steps) (later : List Reply) : Prop where
  stands : b'.actuator.position = b.actuator.position + commanded
  taken : b'.actuator.taken = b.actuator.taken + commanded.toInt.natAbs
  requests : Part.requests.Kept b b'
  replies : b'.operator.replies = later

namespace Bench.Measured

variable {b b' : Bench} {commanded : Steps} {later : List Reply}

theorem afterChange (h : b.Measured b' commanded later) (hspared : b.Spared b') :
    b.Measured (b'.afterOccasion .change) commanded later where
  stands := by rw [(b'.afterOccasion_unmoved .change).actuator, h.stands]
  taken := by rw [(b'.afterOccasion_unmoved .change).actuator, h.taken]
  requests := h.requests.trans hspared.schedule (b'.afterOccasion_kept .requests .change)
  replies := by rw [(b'.afterOccasion_idled .change).operator, h.replies]

/-- Steps per unit that pass their check are in force after the move, and give the position. -/
theorem adopted {r : DistanceReport} (h : b.Measured b' r.commanded later) (hspared : b.Spared b')
    (hcheck : Calibration.checkStepsPerUnit r.stepsPerUnit = .ok ()) : ∃ d,
      Action.adopt r b' = .ok r d ∧ b.Measured d r.commanded later ∧
        d.calibration = { b.calibration with stepsPerUnit := r.stepsPerUnit } ∧
        d.position = distanceOf d.actuator.position r.stepsPerUnit := by
  have hmeasured := h.afterChange hspared
  refine ⟨_, Action.adopt_of_ok hcheck b', ⟨hmeasured.stands, hmeasured.taken, hmeasured.requests,
    hmeasured.replies⟩, ?_, rfl⟩
  rw [← hspared.calibration]
  rfl

/-- Steps per unit that fail their check leave the bench where the move took it. -/
theorem refused {r : DistanceReport} {e : SettingError} (h : b.Measured b' r.commanded later)
    (hspared : b.Spared b') (hcheck : Calibration.checkStepsPerUnit r.stepsPerUnit = .error e) : ∃ d,
      Action.adopt r b' = .error (.refused (.setting e)) d ∧ b.Measured d r.commanded later ∧
        d.calibration = b.calibration ∧ d.position = b'.position :=
  ⟨_, Action.adopt_of_error hcheck b', h.afterChange hspared,
    (b'.afterOccasion_spared .change).calibration.trans hspared.calibration,
    (b'.afterOccasion_unmoved .change).position⟩

end Bench.Measured

namespace Action

variable {b : Bench} {target feedrate v : Single} {ack : Reply} {skipped later : List Reply}

/-- What a calibration comes to before its end, if its move is refused. -/
theorem calibrateBy_of_not_pos (hfeedrate : ¬ 0 < feedrate) (previous : Single) (commanded : Steps)
    (h : b.Answered (ack :: later)) : ∃ b',
      calibrateBy target feedrate previous commanded b =
        .error (.refused (.motion (.invalidFeedrate feedrate))) b' ∧
      b.Spared b' ∧ b.Unmoved b' ∧ b'.operator.replies = later := by
  obtain ⟨b', hack, hlater⟩ := awaitAck_answered (h.noted (.distanceMove commanded))
  have hwaited := waited_of_ok awaitAck_uses hack
  have hspared : b.Spared (b.noted (.distanceMove commanded)) :=
    Effect.apply_spared (e := .note _) trivial b
  refine ⟨b', ?_, hspared.trans hwaited.spared, ?_, hlater.replies⟩
  · rw [calibrateBy, note_bind_apply, bind_of_ok hack]
    exact bind_eq_error.2 (.inl (move_of_not_pos hfeedrate b'))
  · exact ⟨hwaited.unmoved.actuator, hwaited.unmoved.clock, hwaited.unmoved.position⟩

/-- What a calibration comes to before its end, if its move is made. -/
theorem calibrateBy_measures (hfeedrate : 0 < feedrate)
    (hspeed : 0 < stepRate feedrate b.calibration.stepsPerUnit)
    (hticks : (b.stepsTo target).toInt.natAbs ≤ b.ticksLeft) (hskipped : ∀ r ∈ skipped, ¬ r.IsDistance)
    (hv : 0 < v) (h : b.Answered (ack :: (skipped ++ .value v :: later))) : ∃ b',
      calibrateBy target feedrate b.calibration.stepsPerUnit (b.stepsTo target) b =
        adopt ⟨b.stepsTo target, v, b.calibration.stepsPerUnit,
          .ofInt (b.stepsTo target).toInt.natAbs / v⟩ b' ∧
      b.Measured b' (b.stepsTo target) later ∧ b.Spared b' ∧ b'.position = target := by
  obtain ⟨b₁, hack, hasked⟩ := awaitAck_answered (h.noted (.distanceMove (b.stepsTo target)))
  have hwaited := waited_of_ok awaitAck_uses hack
  have hnoted : b.Spared (b.noted (.distanceMove (b.stepsTo target))) :=
    Effect.apply_spared (e := .note _) trivial b
  -- The move works out its own way, which is the one that was announced, since nothing has moved.
  have hstart : b₁.actuator = b.actuator := hwaited.unmoved.actuator
  have hway : stepsOf target b.calibration.stepsPerUnit - b₁.actuator.position =
      b.stepsTo target := by rw [hstart, Bench.stepsTo]
  have hleft : b₁.ticksLeft = b.ticksLeft := hwaited.ticksLeft
  rw [← hway, ← hleft] at hticks
  obtain ⟨r, b₂, hmove, hwent⟩ := move_goes hfeedrate hspeed hticks
  rw [hway] at hwent
  obtain ⟨b₃, hask, hlater⟩ := askDistance_answered hskipped hv (hasked.of_idled hwent.idled)
  have hheard := waited_of_ok (askDistance_uses (b.stepsTo target)) hask
  have hspared := (hnoted.trans hwaited.spared).trans (hwent.spared.trans hheard.spared)
  refine ⟨b₃, ?_, ⟨?_, ?_, ⟨hspared.requests, hspared.mailbox, hspared.unattended⟩, hlater.replies⟩,
    hspared, hheard.unmoved.position.trans hwent.position⟩
  · rw [calibrateBy, note_bind_apply, bind_of_ok hack, bind_of_ok hmove, bind_of_ok hask]
    rfl
  · rw [hheard.unmoved.actuator, hwent.stands, hstart]
  · rw [hheard.unmoved.actuator, hwent.taken, hstart]

theorem calibrateDistance_apply (target feedrate : Single) (b : Bench) :
    calibrateDistance target feedrate b =
      (if b.stepsTo target = 0 then refuse (.setting (.invalidScaleFactor .stepsPerUnit 0))
        else calibrateBy target feedrate b.calibration.stepsPerUnit (b.stepsTo target)) b := by
  rw [calibrateDistance_eq]
  rfl

/-- An operator who takes a while to acknowledge, gives no distance at first, and says more than is
asked for. -/
def hesitantBench : Bench where
  cell := { zeroCounts := 0, countsPerUnit := 1 }
  operator := { pollMillis := 1, sources := [.polled
    [none, some .proceed, some (.value 0), none, some .proceed, some (.value 2), some (.value 7)]] }
  ticksLeft := 1000
  delaysLeft := 1000

/-- Behind the origin, with an operator who acknowledges and reports a distance. -/
def adriftBench : Bench where
  cell := { zeroCounts := 0, countsPerUnit := 1 }
  operator := { pollMillis := 1, sources := [.polled [some .proceed, some (.value 1)]] }
  actuator := { position := -80 }
  ticksLeft := 0x7FFFFFFFFFFFFFB1
  delaysLeft := 1000

end Action

end LoadBench
