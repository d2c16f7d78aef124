import LoadBench.Proofs.LoadPhases
import LoadBench.Proofs.Visits

/-!
# The amplifier and the constants

The divider and the offset of the load cell are kept twice: among the constants in force, by which
samples are worked out, and in the amplifier of the cell. Where the two agree before a run they agree
after every line of it. A command that sets constants tells the amplifier what it was given, once the
change is accepted; no other command but a load calibration touches either.
-/

namespace LoadBench

/-- The amplifier was told the constants in force. -/
structure Bench.Tuned (b : Bench) : Prop where
  scale : b.cell.driverScale = b.calibration.scaleDivider
  offset : b.cell.driverOffset = b.calibration.offset

namespace Bench

variable {b b' : Bench}

theorem Tuned.of_spared (hb : b.Tuned) (h : b.Spared b') : b'.Tuned where
  scale := by rw [h.driverScale, h.calibration, hb.scale]
  offset := by rw [h.driverOffset, h.calibration, hb.offset]

theorem withLoadConstants_tuned (b : Bench) (k : LoadConstants) : (b.withLoadConstants k).Tuned :=
  ⟨rfl, rfl⟩

end Bench

namespace Effect

def LeavesTuned : Effect → Prop
  | .change changes => ∃ stepsPerUnit, changes = [.stepsPerUnit stepsPerUnit]
  | .driverScale _ | .driverOffset _ => False
  | _ => True

/-- An effect that is not about the amplifier leaves it as it is set. -/
theorem apply_tuned {e : Effect} (h : e.LeavesTuned) {b : Bench} (hb : b.Tuned) :
    (e.apply b).Tuned := by
  cases e with
  | post r =>
    simp only [apply, Bench.posted]
    split <;> exact ⟨hb.scale, hb.offset⟩
  | change changes =>
    obtain ⟨u, rfl⟩ := h
    simp only [apply]
    split
    · next c hc =>
      obtain ⟨_, rfl⟩ := Calibration.update_eq_ok.1 hc
      exact ⟨hb.scale, hb.offset⟩
    · exact hb
  | driverScale | driverOffset => exact h.elim
  | countMove samples => exact ⟨hb.scale, hb.offset⟩
  | _ => exact hb.of_spared (apply_spared (by trivial) b)

end Effect

theorem Bench.Reaches.tuned {K : Effect → Prop} (hK : ∀ e, K e → e.LeavesTuned) {b b' : Bench}
    (h : Reaches K b b') (hb : b.Tuned) : b'.Tuned :=
  h.invariant (P := Bench.Tuned) (fun e he _ hc => Effect.apply_tuned (hK e he) hc) hb

namespace Action

variable {b b' : Bench}

/-! ## Load calibrations -/

/-- Whichever step it is, and whatever comes of it, the amplifier agrees afterwards. -/
theorem loadStep_tuned {m : LoadCalibration} {r : Except Refusal LoadCalibration}
    (h : m.step b = .ok r b') (hb : b.Tuned) : b'.Tuned := by
  cases LoadCalibration.stepped h with
  | gathered _ _ _ hreaches => exact hb.of_spared (hreaches.spared fun _ he => he.sparing)
  | applied n =>
    have hset := (b.afterOccasion .change).withLoadConstants_tuned
    exact ⟨(hset _).scale, (hset _).offset⟩
  | inapplicable => exact hb.of_spared (b.afterOccasion_spared .change)
  | computed | uncomputable | passed | rested => exact ⟨hb.scale, hb.offset⟩

/-- Only the last phase sets the amplifier, and it sets the constants with it. -/
theorem loadSteps_tuned {n : Nat} {m : LoadCalibration} {r : LoadCalibration × Option Refusal}
    (h : LoadCalibration.steps n m b = .ok r b') (hb : b.Tuned) : b'.Tuned := by
  induction n generalizing m b with
  | zero =>
    cases h
    exact hb
  | succ n ih =>
    obtain ⟨result, c, hstep, hrest⟩ := bind_eq_ok.1 h
    have hc := loadStep_tuned hstep hb
    cases result with
    | error e =>
      cases hrest
      exact hc
    | ok m' =>
      change (if m'.phase = .done then _ else _ : Action _) c = _ at hrest
      split at hrest
      · cases hrest
        exact hc
      · exact ih hrest hc

/-- A calibration of the load cell ends with the amplifier on the new constants. -/
theorem execute_calibrateLoad_tuned {reference : Single}
    (h : execute (.calibrateLoad reference) b = .ok () b') (hb : b.Tuned) : b'.Tuned := by
  obtain ⟨k, c, hcalibrate, hend⟩ := bind_eq_ok.1 h
  cases hend
  rw [calibrateLoad_eq] at hcalibrate
  obtain ⟨⟨m, why⟩, c, hsteps, hanswer⟩ := bind_eq_ok.1 hcalibrate
  cases why with
  | none =>
    cases hanswer
    exact loadSteps_tuned hsteps hb
  | some why => cases hanswer

/-! ## Constants -/

/-- The amplifier is told what was given, and keeps the rest. -/
theorem announce_ok {given : Constants} {c : Calibration} (h : announce given c b = .ok () b') :
    b'.calibration = b.calibration ∧
      b'.cell.driverScale = (if given.scaleDivider.isSome then c.scaleDivider else b.cell.driverScale) ∧
      b'.cell.driverOffset = (if given.offset.isSome then c.offset else b.cell.driverOffset) := by
  obtain ⟨u, d, o⟩ := given
  cases u <;> cases d <;> cases o <;> (cases h; exact ⟨rfl, rfl, rfl⟩)

/-- New constants reach the amplifier when they are stored. -/
theorem execute_constants_tuned {given : Constants}
    (h : execute (.constants given) b = .ok () b') (hb : b.Tuned) : b'.Tuned := by
  change setConstants given b = _ at h
  rw [setConstants_eq] at h
  obtain ⟨c, b₁, hchange, hannounce⟩ := bind_eq_ok.1 h
  obtain ⟨hupdate, rfl⟩ := change_ok hchange
  obtain ⟨_, rfl⟩ := Calibration.update_eq_ok.1 hupdate
  obtain ⟨hcalibration, hscale, hoffset⟩ := announce_ok hannounce
  have hsame := b.afterOccasion_spared .change
  rw [given.foldl_changes] at hcalibration hscale hoffset
  constructor
  · rw [hcalibration, hscale]
    cases given.scaleDivider with
    | none => exact hsame.driverScale.trans hb.scale
    | some v => rfl
  · rw [hcalibration, hoffset]
    cases given.offset with
    | none => exact hsame.driverOffset.trans hb.offset
    | some v => rfl

/-! ## Commands -/

/-- Amplifier and constants agree after every command, whatever it is. -/
theorem execute_tuned {c : Command} (h : execute c b = .ok () b') (hb : b.Tuned) : b'.Tuned := by
  have hreaches := (execute_uses c).reaches_of_ok h
  cases c with
  | move target feedrate samples =>
    refine hreaches.tuned (fun e he => ?_) hb
    rcases he with he | ⟨n, rfl⟩
    · cases e <;> simp_all [Effect.Moving, Effect.Driving, Effect.LeavesTuned]
    · trivial
  | wait seconds =>
    refine hreaches.tuned (fun e he => ?_) hb
    cases e <;> simp_all [Command.Effects, Effect.Waiting, Effect.LeavesTuned]
  | replay cycles =>
    cases h
    exact hb
  | constants given => exact execute_constants_tuned h hb
  | calibrateLoad reference => exact execute_calibrateLoad_tuned h hb
  | calibrateDistance target feedrate =>
    refine hreaches.tuned (fun e he => ?_) hb
    cases e <;> simp_all [Command.Effects, Effect.CalibratingDistance, Effect.LeavesTuned]

/-- A line of a run that is skipped touches neither the amplifier nor the constants. -/
theorem visit_tuned {v : Visit} (h : visit v b = .ok () b') (hb : b.Tuned) : b'.Tuned :=
  visit_invariant (P := Bench.Tuned) (fun _ _ _ _ hc => ⟨hc.scale, hc.offset⟩)
    (fun _ _ _ => execute_tuned) (fun _ _ _ _ h hc => hc.of_spared (execute_refused_spares h)) h hb

theorem started_tuned (hb : b.Tuned) (p : Program) : (b.started p).Tuned :=
  Bench.Tuned.of_spared (b := { b with tally := {} }) ⟨hb.scale, hb.offset⟩ (b.started_spared p)

/-- A run that starts with a tuned amplifier makes its visits one after the other, and after every
single one of them, at whatever depth of replays, the amplifier is tuned. So it is in the end. -/
theorem run_tuned (p : Program) (hb : b.Tuned) :
    runFront p p.length = visitAll (p.visits p.length) ∧
    (∀ vs c, vs <+: p.visits p.length → visitAll vs (b.started p) = .ok () c → c.Tuned) ∧
    ∀ t c, run p b = .ok t c → c.Tuned := by
  have hvisits {vs : List Visit} {c : Bench} (h : visitAll vs (b.started p) = .ok () c) : c.Tuned :=
    visitAll_invariant (fun _ _ _ => visit_tuned) h (started_tuned hb p)
  refine ⟨runFront_eq p p.length, fun vs c _ h => hvisits h, fun t c h => ?_⟩
  obtain ⟨d, hd, _, rfl⟩ := run_eq_ok.1 h
  have hend := (hvisits hd).of_spared d.finished_spared
  exact ⟨hend.scale, hend.offset⟩

/-- Constants are set, a load calibration finds no load and is refused for its divider, a change is
refused for its second constant, and all is replayed. -/
def retunedReplay : Program :=
  [⟨"", .ok (.constants ⟨none, some 4, some 7⟩)⟩, ⟨"", .ok (.calibrateLoad 2)⟩,
    ⟨"", .ok (.constants ⟨some 100, some 0, some 1⟩)⟩, ⟨"", .ok (.replay 1)⟩]

def tendedBench : Bench :=
  { plainBench with
    operator := { pollMillis := 1, sources := [.polled (List.replicate 4 (some .proceed))] } }

theorem retunedReplay_tuned : ∃ t c,
    run retunedReplay tendedBench = .ok t c ∧ t.skipped = 4 ∧ c.Tuned := by
  have hskipped : (match run retunedReplay tendedBench with
      | .ok t _ => t.skipped == 4
      | .error _ _ => false) = true := by
    decide +kernel
  obtain ⟨_, _, htuned⟩ := run_tuned (b := tendedBench) retunedReplay ⟨rfl, rfl⟩
  cases h : run retunedReplay tendedBench with
  | error stop c =>
    rw [h] at hskipped
    cases hskipped
  | ok t c =>
    rw [h] at hskipped
    exact ⟨t, c, rfl, beq_iff_eq.1 hskipped, htuned t c h⟩

end Action

end LoadBench
