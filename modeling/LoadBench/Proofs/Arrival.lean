import LoadBench.Proofs.Itinerary
import LoadBench.Proofs.Underflow
import LoadBench.Proofs.Validity

/-!
# Moves that never arrive

A move is accepted for its feedrate, but the actuator goes by the step rate. Where the product of the
feedrate and the steps per unit vanishes, an accepted move that has steps to go ticks on for ever and
takes none of them. Every other accepted move arrives after as many ticks as it has steps.
-/

namespace LoadBench

namespace Action

variable {b : Bench} {plan : Plan} {u : Single}

/-! ## Without a speed -/

/-- A tick without a speed leaves the actuator as it is, or there are no ticks left. -/
theorem tick_idles (h : ¬ 0 < b.actuator.speed) :
    (∃ b', tick b = .ok () b' ∧ b'.actuator = b.actuator) ∨ tick b = .error (.exhausted .ticks) b := by
  by_cases hleft : b.ticksLeft = 0
  · refine .inr ?_
    rw [tick, get_bind_apply, if_pos hleft]
    rfl
  · let spent : Bench := { b with ticksLeft := b.ticksLeft - 1 }
    have hsame := (spent.afterOccasion_unmoved (.tick b.ticks)).actuator
    have hidle : ¬ (spent.afterOccasion (.tick b.ticks)).actuator.steps := by
      rw [hsame]
      simp [Actuator.steps, spent, h]
    refine .inl ⟨(spent.afterOccasion (.tick b.ticks)).ticked, ?_, ?_⟩
    · rw [tick, get_bind_apply, if_neg hleft]
      rfl
    · change (spent.afterOccasion (.tick b.ticks)).actuator.tick.1 = b.actuator
      rw [Actuator.tick, if_neg hidle]
      exact hsame

/-- Without a speed the way never ends, however many ticks are allowed. -/
theorem travel_stalls (u : Single) (allowance : Nat) (c : Option Cadence) (ticks : Nat)
    (hgo : b.actuator.toGo ≠ 0) (hspeed : ¬ 0 < b.actuator.speed) :
    ∃ b', travel u allowance c ticks b = .error (.exhausted .ticks) b' ∧
      b'.actuator = b.actuator := by
  induction allowance generalizing c ticks b with
  | zero =>
    refine ⟨b, ?_, rfl⟩
    rw [travel, get_bind_apply, if_neg hgo]
    rfl
  | succ allowance ih =>
    rcases tick_idles hspeed with ⟨b₁, htick, hsame₁⟩ | hexhausted
    · obtain ⟨made, c', b₂, hfollow, _, hunmoved₂⟩ := follow_any Cadence.tick u c b₁
      obtain ⟨b₃, hunmoved₃, _, _, htravel⟩ := travel_of_toGo allowance ticks hgo htick hfollow
      have hsame : b₃.actuator = b.actuator :=
        hunmoved₃.actuator.trans (hunmoved₂.actuator.trans hsame₁)
      obtain ⟨b', hstall, hsame'⟩ := ih (b := b₃) c' (ticks + 1) (by rwa [hsame]) (by rwa [hsame])
      exact ⟨b', htravel.trans hstall, hsame'.trans hsame⟩
    · refine ⟨b, ?_, rfl⟩
      rw [travel, get_bind_apply, if_neg hgo]
      exact bind_eq_error.2 (.inl hexhausted)

/-- A drive begins with the actuator where it was, told its speed and its target. -/
theorem drive_begins (target : Single) (samples : Int) (u : Single) (plan : Plan) (b : Bench) :
    ∃ made c b₂, follow Cadence.start u
        (Cadence.ofPlan? samples plan (b.setOff target plan).clock.toNat) (b.setOff target plan) =
          .ok (made, c) b₂ ∧
      b₂.actuator = { b.actuator with speed := plan.speed, target := plan.target } := by
  obtain ⟨made, c, b₂, hfollow, _, hsame⟩ := follow_any Cadence.start u
    (Cadence.ofPlan? samples plan (b.setOff target plan).clock.toNat) (b.setOff target plan)
  have hunmoved := (Bench.afterOccasion_unmoved
    (b.noted (.moving target plan.target plan.delta plan.speed plan.seconds)) .move).actuator
  refine ⟨made, c, b₂, hfollow, hsame.actuator.trans ?_⟩
  exact congrArg (fun a : Actuator => { a with speed := plan.speed, target := plan.target }) hunmoved

/-- A drive that is told no speed never ends, unless it has no steps. -/
theorem drive_stalls {target : Single} {samples : Int} (hstart : plan.start = b.actuator.position)
    (hdelta : plan.delta ≠ 0) (hspeed : ¬ 0 < plan.speed) :
    ∃ b', drive target samples u plan b = .error (.exhausted .ticks) b' ∧
      b'.actuator.position = b.actuator.position := by
  obtain ⟨made, c, b₂, hfollow, hactuator⟩ := drive_begins target samples u plan b
  have hgo : b₂.actuator.toGo ≠ 0 := by
    rw [hactuator, Actuator.toGo, ← hstart]
    exact hdelta
  obtain ⟨b', hstall, hsame⟩ :=
    travel_stalls u (b₂.ticksLeft + 1) c 0 hgo (by rwa [hactuator])
  refine ⟨b', ?_, ?_⟩
  · rw [drive, note_bind_apply, occasion_bind_apply, modify_bind_apply, get_bind_apply]
    refine bind_eq_error.2 (.inr ⟨_, b₂, hfollow, ?_⟩)
    simp only [get_bind_apply]
    exact bind_eq_error.2 (.inl hstall)
  · rw [hsame, hactuator]

/-- A drive without steps ends at once, whatever its speed. -/
theorem drive_of_delta_eq_zero {target : Single} {samples : Int}
    (hstart : plan.start = b.actuator.position) (hdelta : plan.delta = 0) :
    ∃ r b', drive target samples u plan b = .ok r b' ∧ r.ticks = 0 ∧
      b'.actuator.position = plan.target := by
  obtain ⟨made, c, b₂, hfollow, hactuator⟩ := drive_begins target samples u plan b
  have hgo : b₂.actuator.toGo = 0 := by
    rw [hactuator, Actuator.toGo, ← hstart]
    exact hdelta
  obtain ⟨made', c', b₄, hend, _, hsame⟩ := follow_any (fun c _ => c.complete) u c b₂
  refine ⟨_, _, drive_of hfollow (travel_of_arrived hgo) hend, rfl, ?_⟩
  have hposition : b₄.actuator.position = plan.start := by
    rw [hsame.actuator, hactuator, hstart]
  exact hposition.trans (Steps.sub_eq_zero.1 hdelta).symm

/-! ## Accepted moves -/

/-- A plan that is accepted is for a positive feedrate and has its step rate. -/
theorem of_make_eq_ok {target feedrate : Single} {start : Steps}
    (h : Plan.make start target feedrate u = .ok plan) :
    0 < feedrate ∧ plan.speed = feedrate * u := by
  unfold Plan.make at h
  split at h
  · next hpos =>
    cases h
    exact ⟨hpos, rfl⟩
  · cases h

/-- An accepted move arrives, after as many ticks as it has steps, if it has none or if the exact
step rate is more than half of the least positive single. Every other accepted move goes on for
ever: whatever number of ticks is allowed, it uses them up and the actuator does not move. -/
theorem move_arrives_or_stalls {target feedrate : Single} {samples : Int}
    (hplan : Plan.make b.actuator.position target feedrate u = .ok plan)
    (hfeedrate : feedrate.isFinite) (hu : Calibration.checkStepsPerUnit u = .ok ()) :
    (plan.delta = 0 ∨ (2 : ℚ) ^ (-150 : ℤ) < feedrate.toRat * u.toRat →
      ∀ n, plan.delta.toInt.natAbs ≤ n →
        ∃ r b', move target feedrate samples u { b with ticksLeft := n } = .ok r b' ∧
          r.ticks = plan.delta.toInt.natAbs ∧ b'.actuator.position = plan.target) ∧
      (plan.delta ≠ 0 ∧ feedrate.toRat * u.toRat ≤ (2 : ℚ) ^ (-150 : ℤ) →
        ∀ n, ∃ b', move target feedrate samples u { b with ticksLeft := n } =
          .error (.exhausted .ticks) b' ∧ b'.actuator.position = b.actuator.position) := by
  obtain ⟨hpos, hspeed⟩ := of_make_eq_ok hplan
  obtain ⟨hupos, hufinite⟩ := Calibration.checkStepsPerUnit_eq_ok.1 hu
  have hstart := start_of_plan hplan
  have hvanishes : 0 < plan.speed ↔ (2 : ℚ) ^ (-150 : ℤ) < feedrate.toRat * u.toRat := by
    rw [hspeed]
    exact Single.mul_pos_iff hpos hfeedrate hupos hufinite
  constructor
  · intro hrate n hn
    rw [move_of_plan (b := { b with ticksLeft := n }) hplan]
    by_cases hdelta : plan.delta = 0
    · obtain ⟨r, b', hdrive, hticks, harrived⟩ :=
        drive_of_delta_eq_zero (b := { b with ticksLeft := n }) hstart hdelta
      exact ⟨r, b', hdrive, by rw [hticks, hdelta]; rfl, harrived⟩
    · have hmoves : 0 < plan.speed := hvanishes.2 (hrate.resolve_left hdelta)
      by_cases hsamples : 0 < samples
      · obtain ⟨r, b', ks, hdrive, htraces⟩ :=
          drive_trace_of_pos (b := { b with ticksLeft := n }) hsamples hstart hmoves hn
        exact ⟨r, b', hdrive, htraces.ticks, htraces.arrived⟩
      · obtain ⟨r, b', ks, hdrive, htraces⟩ :=
          drive_trace_of_nonpos (b := { b with ticksLeft := n }) (Int.not_lt.1 hsamples)
            hstart hmoves hn
        exact ⟨r, b', hdrive, htraces.ticks, htraces.arrived⟩
  · rintro ⟨hdelta, hrate⟩ n
    rw [move_of_plan (b := { b with ticksLeft := n }) hplan]
    exact drive_stalls (b := { b with ticksLeft := n }) hstart hdelta
      fun hmoves => (hvanishes.1 hmoves).not_ge hrate

def leastFeedrate : Single := Float32.ofBits 1

theorem leastFeedrate_accepted : 0 < leastFeedrate ∧ leastFeedrate.isFinite ∧
    Calibration.checkStepsPerUnit 0.25 = .ok () ∧
    Plan.make plainBench.actuator.position 100 leastFeedrate 0.25 = .ok ⟨0, 25, 0⟩ := by
  have hpos : 0 < leastFeedrate := by decide +kernel
  have htarget : stepsOf 100 0.25 = 25 := by decide +kernel
  have hrate : stepRate leastFeedrate 0.25 = 0 := by decide +kernel
  refine ⟨hpos, by decide +kernel,
    Calibration.checkStepsPerUnit_eq_ok.2 ⟨by decide +kernel, by decide +kernel⟩, ?_⟩
  rw [Plan.make, if_pos hpos, htarget, hrate]
  rfl

/-- With a quarter of a step per unit the least feedrate takes an accepted move nowhere. -/
theorem leastFeedrate_stalls :
    Plan.make plainBench.actuator.position 100 leastFeedrate 0.25 = .ok ⟨0, 25, 0⟩ ∧
      ∀ n, ∃ b', move 100 leastFeedrate 0 0.25 { plainBench with ticksLeft := n } =
        .error (.exhausted .ticks) b' ∧ b'.actuator.position = 0 := by
  obtain ⟨hpos, hfinite, hu, hplan⟩ := leastFeedrate_accepted
  obtain ⟨hupos, hufinite⟩ := Calibration.checkStepsPerUnit_eq_ok.1 hu
  have hvanishes : ¬ 0 < leastFeedrate * 0.25 := by decide +kernel
  have hsmall := mt (Single.mul_pos_iff hpos hfinite hupos hufinite).2 hvanishes
  exact ⟨hplan, (move_arrives_or_stalls hplan hfinite hu).2 ⟨by decide, not_lt.1 hsmall⟩⟩

/-- That move is accepted with 25 steps to go, and there is no number of ticks after which it
arrives. -/
theorem accepted_move_never_arrives :
    0 < leastFeedrate ∧ leastFeedrate.isFinite ∧ Calibration.checkStepsPerUnit 0.25 = .ok () ∧
      Plan.make plainBench.actuator.position 100 leastFeedrate 0.25 = .ok ⟨0, 25, 0⟩ ∧
      ¬ ∃ n r b', move 100 leastFeedrate 0 0.25 { plainBench with ticksLeft := n } = .ok r b' := by
  obtain ⟨hpos, hfinite, hu, hplan⟩ := leastFeedrate_accepted
  refine ⟨hpos, hfinite, hu, hplan, ?_⟩
  rintro ⟨n, r, b', hmove⟩
  have hstill : ¬ 0 < (⟨0, 25, 0⟩ : Plan).speed := by decide +kernel
  have hstall : ∃ b'', drive 100 0 0.25 ⟨0, 25, 0⟩ { plainBench with ticksLeft := n } =
      .error (.exhausted .ticks) b'' ∧ b''.actuator.position = 0 :=
    drive_stalls rfl (by decide) hstill
  obtain ⟨b'', hdrive, _⟩ := hstall
  rw [move_of_plan (b := { plainBench with ticksLeft := n }) hplan, hdrive] at hmove
  cases hmove

end Action

end LoadBench
