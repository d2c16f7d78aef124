import LoadBench.Proofs.Visits

/-!
# The sampling does not disturb the run

The sampling and a run share the mailbox, the load cell and the log. Whatever turns the sampling
gets, with whatever settings, a run does and reports the same: with the part of the sampling left
out, two runs of one program from one bench cannot be told apart. Neither waits for the other.
-/

namespace LoadBench

/-- The notice tells of what became of requests, and not of what the run did. -/
def Notice.ofSampling : Notice → Bool
  | .requestOverwritten .. | .sampled .. => true
  | _ => false

def recordsOfRun (log : Array Record) : List Record :=
  log.toList.filter fun r => !r.notice.ofSampling

namespace Bench

/-- The bench without the part of the sampling: the sampling itself with its turns, the slot of the
mailbox and its counts of requests overwritten and taken, the count of readings, and what the log
says of requests and samples. -/
def own (b : Bench) : Bench :=
  { b with
    schedule := fun _ _ => []
    occasions := 0
    sampler := {}
    mailbox := { published := b.mailbox.published }
    cell := { b.cell with reads := 0 }
    log := (recordsOfRun b.log).toArray }

theorem own_view (b : Bench) : b.own.view = b.view := rfl

theorem own_own (b : Bench) : b.own.own = b.own := by
  simp [own, recordsOfRun]

theorem noted_own (b : Bench) (n : Notice) : (b.noted n).own = (b.own.noted n).own := by
  simp [own, noted, recordsOfRun]

theorem noted_own_of_sampling (b : Bench) {n : Notice} (h : n.ofSampling) :
    (b.noted n).own = b.own := by
  simp [own, noted, recordsOfRun, h]

theorem delivered_own (b : Bench) (s : Sample) : (b.delivered s).own = b.own := by
  unfold delivered
  split
  · exact noted_own_of_sampling b rfl
  · rfl

/-- A turn of the sampling leaves no trace in the part of the run. -/
theorem afterTurn_own (b : Bench) (t : Turn) : (b.afterTurn t).own = b.own := by
  cases t with
  | discard => rfl
  | serve =>
    simp only [afterTurn, served]
    split
    · rfl
    · have hreads := burstMean_cell b.sampler.readings b.cell
      refine (delivered_own _ _).trans ?_
      change own { b with
        mailbox := b.mailbox.take
        cell := (burstMean LoadCell.read b.sampler.readings b.cell).2 } = b.own
      rw [hreads]
      rfl

theorem afterTurns_own (ts : List Turn) (b : Bench) : (ts.foldl afterTurn b).own = b.own := by
  induction ts generalizing b with
  | nil => rfl
  | cons t ts ih => exact (ih _).trans (afterTurn_own b t)

theorem afterOccasion_own (b : Bench) (o : Occasion) : (b.afterOccasion o).own = b.own :=
  afterTurns_own _ _

/-- Whether a request is lost does not show. -/
theorem posted_own (b : Bench) (r : Request) :
    (b.posted r).own = { b.own with
      mailbox := { published := b.mailbox.published + 1 }
      requests := b.requests.push r } := by
  simp only [posted]
  split
  · exact noted_own_of_sampling _ rfl
  · rfl

end Bench

/-- What an effect does to the part of the run depends on that part only. -/
theorem Effect.apply_own (e : Effect) (b : Bench) : (e.apply b).own = (e.apply b.own).own := by
  cases e with
  | note n => exact b.noted_own n
  | occasion o =>
    have hleft := b.afterOccasion_own o
    have hright := b.own.afterOccasion_own o
    rw [b.own_own] at hright
    exact hleft.trans hright.symm
  | post r =>
    have hleft := b.posted_own r
    have hright := b.own.posted_own r
    rw [b.own_own] at hright
    exact hleft.trans hright.symm
  | change changes =>
    have hsame : b.own.calibration = b.calibration := rfl
    simp only [apply, hsame]
    cases b.calibration.update changes with
    | ok c => simp [Bench.own, recordsOfRun]
    | error e => exact b.own_own.symm
  | poll => simp [apply, Bench.own, recordsOfRun]
  | read => simp [apply, Bench.own, recordsOfRun, LoadCell.read, StateT.run]
  | tick =>
    cases hspring : b.spring <;> simp [apply, Bench.own, recordsOfRun, Bench.ticked, hspring]
  | _ => simp [apply, Bench.own, recordsOfRun, Bench.aimed, Bench.rebased]

/-- No command sees the part of the sampling. -/
theorem own_blind : Blind (fun _ => True) fun b b' => b.own = b'.own where
  view {b b'} h := by
    rw [← b.own_view, h, b'.own_view]
  apply {e b b'} _ h := by
    rw [e.apply_own b, e.apply_own b', h]

namespace Action

/-- What a line came to decides how it is counted and reported. -/
theorem own_reach {act : Action Unit} {b b' : Bench}
    (h : through Bench.own (act b) = through Bench.own (act b')) (index : Nat) (source : String) :
    through Bench.own (reach index source act b) =
      through Bench.own (reach index source act b') := by
  unfold reach
  cases hact : act b <;> cases hact' : act b' <;> rw [hact, hact'] at h
  · injection h with _ hown
    exact congrArg (fun c : Bench => EStateM.Result.ok ()
      { c with tally := { c.tally with executed := c.tally.executed + 1 } }) hown
  · cases h
  · cases h
  · next stop c _ c' =>
    injection h with hstop hown
    subst hstop
    cases stop with
    | refused why =>
      have hnoted : (c.noted (.skipped index source why)).own =
          (c'.noted (.skipped index source why)).own := by
        rw [c.noted_own, c'.noted_own, hown]
      exact congrArg (fun c : Bench => EStateM.Result.ok ()
        { c with tally := { c.tally with skipped := c.tally.skipped + 1 } }) hnoted
    | exhausted what => exact congrArg (EStateM.Result.error _) hown
    | awaitingOperator => exact congrArg (EStateM.Result.error _) hown

theorem own_visit (v : Visit) {b b' : Bench} (h : b.own = b'.own) :
    through Bench.own (visit v b) = through Bench.own (visit v b') := by
  cases v with
  | opened index cycles =>
    have huses : Uses (fun _ => True) (note (.replaying index cycles)) := note_uses trivial
    exact huses.through_eq own_blind h
  | line index l => exact own_reach ((carryOut_uses l).through_eq own_blind h) index l.source
  | closed =>
    exact congrArg (fun c : Bench => EStateM.Result.ok ()
      { c with tally := { c.tally with executed := c.tally.executed + 1 } }) h

theorem own_visitAll (vs : List Visit) {b b' : Bench} (h : b.own = b'.own) :
    through Bench.own (visitAll vs b) = through Bench.own (visitAll vs b') := by
  induction vs generalizing b b' with
  | nil => exact congrArg (EStateM.Result.ok ()) h
  | cons v vs ih =>
    rw [visitAll_cons]
    exact through_bind (own_visit v h) fun _ c c' hc => ih hc

end Action

namespace Bench

theorem started_own {b b' : Bench} (h : b.own = b'.own) (p : Program) :
    (b.started p).own = (b'.started p).own := by
  have hnoted : (b.noted (.runStarted p.length p.errorCount)).own =
      (b'.noted (.runStarted p.length p.errorCount)).own := by
    rw [b.noted_own, b'.noted_own, h]
  have htally := congrArg (fun c : Bench => { c with tally := {} }) hnoted
  have hsame := (afterOccasion_own { b.noted (.runStarted p.length p.errorCount) with tally := {} }
    .enable).trans (htally.trans (afterOccasion_own
      { b'.noted (.runStarted p.length p.errorCount) with tally := {} } .enable).symm)
  exact congrArg (energised · true) hsame

theorem finished_own {b b' : Bench} (h : b.own = b'.own) : b.finished.own = b'.finished.own := by
  have hsame : (b.afterOccasion .disable).own = (b'.afterOccasion .disable).own := by
    rw [b.afterOccasion_own, b'.afterOccasion_own, h]
  exact congrArg (energised · false) hsame

/-- The bench with another sampling, which gets other turns. -/
def sampledBy (b : Bench) (sampler : Sampler) (schedule : Schedule) : Bench :=
  { b with sampler, schedule }

end Bench

namespace Action

/-- Two benches that differ in sampling only run alike. -/
theorem own_run (p : Program) {b b' : Bench} (h : b.own = b'.own) :
    through Bench.own (run p b) = through Bench.own (run p b') := by
  have hvisits := own_visitAll (p.visits p.length) (Bench.started_own h p)
  rw [run, note_bind_apply, modify_bind_apply, occasion_bind_apply, modify_bind_apply,
    note_bind_apply, modify_bind_apply, occasion_bind_apply, modify_bind_apply, runFront_eq]
  refine through_bind hvisits fun _ c c' hc => ?_
  have hfinished := Bench.finished_own hc
  change EStateM.Result.ok c.finished.own.tally
      (c.finished.noted (.runFinished c.finished.own.tally)).own =
    .ok c'.finished.own.tally (c'.finished.noted (.runFinished c'.finished.own.tally)).own
  rw [c.finished.noted_own, c'.finished.noted_own, hfinished]

/-- The sampling does not disturb a run. Whatever sampling there is and whatever turns it gets, a
run ends alike: with the same tally or stopped for the same cause, and with the same bench but for
the part of the sampling. -/
theorem run_undisturbed (p : Program) (b : Bench) (m m' : Sampler) (s s' : Schedule) :
    through Bench.own (run p (b.sampledBy m s)) = through Bench.own (run p (b.sampledBy m' s')) ∧
      ∀ t c, run p (b.sampledBy m s) = .ok t c →
        ∃ c', run p (b.sampledBy m' s') = .ok t c' ∧ c'.requests = c.requests ∧
          c'.mailbox.published = c.mailbox.published ∧ c'.calibration = c.calibration ∧
          c'.cell.driverScale = c.cell.driverScale ∧ c'.cell.driverOffset = c.cell.driverOffset ∧
          c'.actuator = c.actuator ∧ c'.position = c.position ∧ c'.clock = c.clock ∧
          c'.operator = c.operator ∧ c'.delays = c.delays := by
  have hsame : through Bench.own (run p (b.sampledBy m s)) =
      through Bench.own (run p (b.sampledBy m' s')) := own_run p rfl
  refine ⟨hsame, fun t c h => ?_⟩
  rw [h] at hsame
  cases hrun : run p (b.sampledBy m' s') with
  | error stop c' =>
    rw [hrun] at hsame
    cases hsame
  | ok t' c' =>
    rw [hrun] at hsame
    injection hsame with htally hown
    have hkeeps {β : Type} (f : Bench → β) (hf : ∀ d, f d.own = f d) : f c' = f c := by
      rw [← hf c, hown, hf c']
    rw [htally]
    exact ⟨c', rfl, hkeeps (·.requests) fun _ => rfl, hkeeps (·.mailbox.published) fun _ => rfl,
      hkeeps (·.calibration) fun _ => rfl, hkeeps (·.cell.driverScale) fun _ => rfl,
      hkeeps (·.cell.driverOffset) fun _ => rfl, hkeeps (·.actuator) fun _ => rfl,
      hkeeps (·.position) fun _ => rfl, hkeeps (·.clock) fun _ => rfl,
      hkeeps (·.operator) fun _ => rfl, hkeeps (·.delays) fun _ => rfl⟩

end Action

end LoadBench
