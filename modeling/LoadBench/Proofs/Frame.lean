import LoadBench.Proofs.Commands

/-!
# What stays as it is

The turns of the sampling change the mailbox, the sampling, the count of readings and the log, and
nothing else. Of the effects of a command, few touch the constants, the amplifier, the requests or
the tally, and few touch the actuator, the clock or the position; the two frames below say which.
-/

namespace LoadBench

@[simp] theorem Mailbox.take_take (m : Mailbox) : m.take.take = m.take := by simp [Mailbox.take]

namespace Bench

/-- The sampling may have had turns. -/
def Attended (b b' : Bench) : Prop :=
  ∃ mailbox reads sampler log occasions,
    b' = { b with mailbox, cell := { b.cell with reads }, sampler, log, occasions } ∧
      (mailbox = b.mailbox ∨ mailbox = b.mailbox.take)

theorem Attended.refl (b : Bench) : b.Attended b := ⟨_, _, _, _, _, rfl, .inl rfl⟩

theorem Attended.trans {b b' b'' : Bench} (h : b.Attended b') (h' : b'.Attended b'') :
    b.Attended b'' := by
  obtain ⟨m, r, s, l, o, rfl, hm⟩ := h
  obtain ⟨m', r', s', l', o', rfl, hm'⟩ := h'
  refine ⟨m', r', s', l', o', rfl, ?_⟩
  rcases hm' with rfl | rfl
  · exact hm
  · rcases hm with rfl | rfl
    · exact .inr rfl
    · exact .inr (Mailbox.take_take _)

theorem delivered_attended (b : Bench) (s : Sample) : b.Attended (b.delivered s) := by
  unfold delivered
  split
  · exact ⟨_, _, _, _, _, rfl, .inl rfl⟩
  · exact ⟨_, _, _, _, _, rfl, .inl rfl⟩

theorem sumReadings_cell (n : Nat) (sum : Int) (c : LoadCell) :
    (sumReadings LoadCell.read n sum c).2 = { c with reads := c.reads + n } := by
  induction n generalizing sum c with
  | zero => rfl
  | succ n ih =>
    have hrest := ih (sum + c.raw) { c with reads := c.reads + 1 }
    have hcount : c.reads + 1 + n = c.reads + (n + 1) := by omega
    rw [hcount] at hrest
    exact hrest

/-- A burst takes as many readings as it is told to. -/
theorem burstMean_cell (n : Nat) (c : LoadCell) :
    (burstMean LoadCell.read n c).2 = { c with reads := c.reads + n } := by
  unfold burstMean
  split
  · next hn =>
    subst hn
    rfl
  · exact sumReadings_cell n 0 c

/-- A turn of the sampler touches nothing but sampling. -/
theorem afterTurn_attended (b : Bench) (t : Turn) : b.Attended (b.afterTurn t) := by
  cases t with
  | discard => exact ⟨_, _, _, _, _, rfl, .inr rfl⟩
  | serve =>
    simp only [afterTurn, served]
    split
    · exact .refl b
    · have hreads := burstMean_cell b.sampler.readings b.cell
      have htaken : b.Attended { b with
          mailbox := b.mailbox.take, cell := (burstMean LoadCell.read b.sampler.readings b.cell).2 } := by
        rw [hreads]
        exact ⟨_, _, _, _, _, rfl, .inr rfl⟩
      exact htaken.trans (delivered_attended _ _)

theorem afterTurns_attended (ts : List Turn) (b : Bench) : b.Attended (ts.foldl afterTurn b) := by
  induction ts generalizing b with
  | nil => exact .refl b
  | cons t ts ih => exact (afterTurn_attended b t).trans (ih _)

theorem afterOccasion_attended (b : Bench) (o : Occasion) : b.Attended (b.afterOccasion o) :=
  Attended.trans ⟨_, _, _, _, _, rfl, .inl rfl⟩ (afterTurns_attended _ _)

/-- Nobody but the run touches the mailbox. -/
def Unattended (b : Bench) : Prop := ∀ n o, b.schedule n o = []

theorem afterOccasion_of_unattended {b : Bench} (h : b.Unattended) (o : Occasion) :
    b.afterOccasion o = { b with occasions := b.occasions + 1 } := by
  simp [afterOccasion, h b.occasions o]

/-- What a refused command leaves alone: the constants and what the amplifier was told, the tally,
and the mailbox, from which only the sampling may have taken what was there before. -/
structure Spared (b b' : Bench) : Prop where
  calibration : b'.calibration = b.calibration
  driverScale : b'.cell.driverScale = b.cell.driverScale
  driverOffset : b'.cell.driverOffset = b.cell.driverOffset
  tally : b'.tally = b.tally
  requests : b'.requests = b.requests
  schedule : b'.schedule = b.schedule
  mailbox : b'.mailbox = b.mailbox ∨ b'.mailbox = b.mailbox.take
  unattended : b.Unattended → b'.mailbox = b.mailbox

structure Unmoved (b b' : Bench) : Prop where
  actuator : b'.actuator = b.actuator
  clock : b'.clock = b.clock
  position : b'.position = b.position

theorem Spared.refl (b : Bench) : b.Spared b :=
  ⟨rfl, rfl, rfl, rfl, rfl, rfl, .inl rfl, fun _ => rfl⟩

/-- What is spared twice in a row is spared. -/
theorem Spared.trans {b b' b'' : Bench} (h : b.Spared b') (h' : b'.Spared b'') : b.Spared b'' where
  calibration := h'.calibration.trans h.calibration
  driverScale := h'.driverScale.trans h.driverScale
  driverOffset := h'.driverOffset.trans h.driverOffset
  tally := h'.tally.trans h.tally
  requests := h'.requests.trans h.requests
  schedule := h'.schedule.trans h.schedule
  mailbox := by
    rcases h'.mailbox with heq | heq
    · rw [heq]
      exact h.mailbox
    · rcases h.mailbox with heq' | heq' <;> rw [heq, heq'] <;> simp
  unattended := by
    intro hidle
    have hidle' : b'.Unattended := by
      intro n o
      rw [h.schedule]
      exact hidle n o
    rw [h'.unattended hidle', h.unattended hidle]

theorem Unmoved.refl (b : Bench) : b.Unmoved b := ⟨rfl, rfl, rfl⟩

theorem Unmoved.trans {b b' b'' : Bench} (h : b.Unmoved b') (h' : b'.Unmoved b'') :
    b.Unmoved b'' :=
  ⟨h'.actuator.trans h.actuator, h'.clock.trans h.clock, h'.position.trans h.position⟩

theorem afterOccasion_spared (b : Bench) (o : Occasion) : b.Spared (b.afterOccasion o) := by
  obtain ⟨m, reads, s, l, n, heq, hm⟩ := afterOccasion_attended b o
  rw [heq]
  refine ⟨rfl, rfl, rfl, rfl, rfl, rfl, hm, fun hidle => ?_⟩
  rw [← heq, afterOccasion_of_unattended hidle]

theorem afterOccasion_unmoved (b : Bench) (o : Occasion) : b.Unmoved (b.afterOccasion o) := by
  obtain ⟨m, reads, s, l, n, heq, hm⟩ := afterOccasion_attended b o
  rw [heq]
  exact ⟨rfl, rfl, rfl⟩

end Bench

namespace Effect

/-- Neither the constants nor the amplifier, the tally or the requests are touched. -/
def Sparing : Effect → Prop
  | .change _ | .driverScale _ | .driverOffset _ | .post _ | .countMove _ => False
  | _ => True

def Still : Effect → Prop
  | .tick | .aim _ | .arrive _ | .rebase _ => False
  | _ => True

theorem Measuring.sparing {e : Effect} (h : e.Measuring) : e.Sparing := by
  cases e with
  | note | occasion | pause | poll | read => trivial
  | _ => exact h.elim

theorem Measuring.still {e : Effect} (h : e.Measuring) : e.Still := by
  cases e with
  | note | occasion | pause | poll | read => trivial
  | _ => exact h.elim

theorem apply_spared {e : Effect} (h : e.Sparing) (b : Bench) : b.Spared (e.apply b) := by
  cases e with
  | occasion o => exact b.afterOccasion_spared o
  | change | driverScale | driverOffset | post | countMove => exact h.elim
  | _ => exact ⟨rfl, rfl, rfl, rfl, rfl, rfl, .inl rfl, fun _ => rfl⟩

theorem apply_unmoved {e : Effect} (h : e.Still) (b : Bench) : b.Unmoved (e.apply b) := by
  cases e with
  | occasion o => exact b.afterOccasion_unmoved o
  | post r =>
    simp only [apply, Bench.posted]
    split <;> exact ⟨rfl, rfl, rfl⟩
  | change changes =>
    simp only [apply]
    split <;> exact ⟨rfl, rfl, rfl⟩
  | tick | aim | arrive | rebase => exact h.elim
  | _ => exact ⟨rfl, rfl, rfl⟩

theorem apply_calibration {e : Effect} (h : ∀ changes, e ≠ .change changes) (b : Bench) :
    (e.apply b).calibration = b.calibration := by
  cases e with
  | occasion o => exact (b.afterOccasion_spared o).calibration
  | post r =>
    simp only [apply, Bench.posted]
    split <;> rfl
  | change changes => exact absurd rfl (h changes)
  | _ => rfl

/-- Only the end of a move counts samples. -/
theorem apply_tally {e : Effect} (h : ∀ samples, e ≠ .countMove samples) (b : Bench) :
    (e.apply b).tally = b.tally := by
  cases e with
  | occasion o => exact (b.afterOccasion_spared o).tally
  | post r =>
    simp only [apply, Bench.posted]
    split <;> rfl
  | change changes =>
    simp only [apply]
    split <;> rfl
  | countMove samples => exact absurd rfl (h samples)
  | _ => rfl

/-- Only a move gives the actuator another target. -/
theorem apply_target {e : Effect} (h : ∀ plan, e ≠ .aim plan) (b : Bench) :
    (e.apply b).actuator.target = b.actuator.target := by
  cases e with
  | tick =>
    simp only [apply, Bench.ticked, Actuator.tick]
    split <;> rfl
  | aim plan => exact absurd rfl (h plan)
  | arrive | rebase => rfl
  | _ => rw [(apply_unmoved (by trivial) b).actuator]

end Effect

namespace Bench

variable {K : Effect → Prop} {b b' : Bench}

theorem Reaches.spared (hK : ∀ e, K e → e.Sparing) (h : Reaches K b b') : b.Spared b' :=
  h.invariant (fun _ he _ hc => hc.trans (Effect.apply_spared (hK _ he) _)) (.refl b)

theorem Reaches.unmoved (hK : ∀ e, K e → e.Still) (h : Reaches K b b') : b.Unmoved b' :=
  h.invariant (fun _ he _ hc => hc.trans (Effect.apply_unmoved (hK _ he) _)) (.refl b)

end Bench

end LoadBench
