import LoadBench.Proofs.Visits

/-!
# Replays written out

A run comes to the same as a run of the program with every replay written out. The two differ in
what they report on the way and in the replays that they count; no command can tell the difference.
-/

namespace LoadBench

namespace Bench

/-- The bench without its log and its count of executed commands. -/
def quiet (b : Bench) : Bench :=
  { b with log := #[], tally := { b.tally with executed := 0 } }

theorem quiet_view (b : Bench) : b.quiet.view = b.view := rfl

theorem delivered_quiet (b : Bench) (s : Sample) :
    (b.delivered s).quiet = (b.quiet.delivered s).quiet := by
  unfold delivered
  by_cases h : b.sampler.sink.reports
  · simp [quiet, noted, h]
  · simp [quiet, h]

theorem afterTurn_quiet (b : Bench) (t : Turn) :
    (b.afterTurn t).quiet = (b.quiet.afterTurn t).quiet := by
  cases t with
  | discard => rfl
  | serve =>
    cases hpending : b.mailbox.pending with
    | none => simp [afterTurn, served, quiet, hpending]
    | some r =>
      simp only [afterTurn, served, quiet, hpending]
      exact delivered_quiet _ _

theorem afterTurns_quiet (ts : List Turn) (b : Bench) :
    (ts.foldl afterTurn b).quiet = (ts.foldl afterTurn b.quiet).quiet := by
  induction ts generalizing b with
  | nil => rfl
  | cons t ts ih =>
    rw [List.foldl_cons, List.foldl_cons, ih, afterTurn_quiet, ← ih]

theorem afterOccasion_quiet (b : Bench) (o : Occasion) :
    (b.afterOccasion o).quiet = (b.quiet.afterOccasion o).quiet :=
  afterTurns_quiet _ _

end Bench

theorem Effect.apply_quiet (e : Effect) (b : Bench) :
    (e.apply b).quiet = (e.apply b.quiet).quiet := by
  cases e with
  | occasion o => exact b.afterOccasion_quiet o
  | post r =>
    cases hpending : b.mailbox.pending with
    | none => simp [apply, Bench.posted, Bench.quiet, hpending]
    | some old => simp [apply, Bench.posted, Bench.quiet, Bench.noted, hpending]
  | change changes =>
    simp only [apply, Bench.quiet]
    cases b.calibration.update changes <;> rfl
  | _ => rfl

/-- No command sees the log or the count of executed commands. -/
theorem quiet_blind : Blind (fun _ => True) fun b b' => b.quiet = b'.quiet where
  view {b b'} h := by
    rw [← b.quiet_view, h, b'.quiet_view]
  apply {e b b'} _ h := by
    rw [e.apply_quiet b, e.apply_quiet b', h]

namespace Action

/-- A result without the log and the count of executed commands. -/
def hushed {α : Type} : EStateM.Result Stop Bench α → EStateM.Result Stop Bench α
  | .ok a b => .ok a b.quiet
  | .error e b => .error e b.quiet

theorem hushed_eq_through {α : Type} (r : EStateM.Result Stop Bench α) :
    hushed r = through Bench.quiet r := by
  cases r <;> rfl

theorem Uses.hushed_eq {α : Type} {K : Effect → Prop} {act : Action α} (hact : Uses K act)
    {b b' : Bench} (h : b.quiet = b'.quiet) : hushed (act b) = hushed (act b') := by
  rw [hushed_eq_through, hushed_eq_through]
  exact (hact.mono fun _ _ => trivial).through_eq quiet_blind h

theorem exists_ok_of_hushed_eq {r : EStateM.Result Stop Bench Unit} {b : Bench}
    (h : hushed (.ok () b) = hushed r) : ∃ b', r = .ok () b' ∧ b.quiet = b'.quiet := by
  cases r with
  | ok _ b' =>
    injection h with _ hquiet
    exact ⟨b', rfl, hquiet⟩
  | error => cases h

theorem hushed_bind {act act' f f' : Action Unit} {b b' : Bench}
    (h : hushed (act b) = hushed (act' b'))
    (hf : ∀ c c', c.quiet = c'.quiet → hushed (f c) = hushed (f' c')) :
    hushed ((act >>= fun _ => f) b) = hushed ((act' >>= fun _ => f') b') := by
  simp only [hushed_eq_through] at h hf ⊢
  exact through_bind h fun _ => hf

/-- What becomes of a result without log and executed commands when its line is counted. -/
def settled : EStateM.Result Stop Bench Unit → EStateM.Result Stop Bench Unit
  | .ok _ b => .ok () b
  | .error (.refused _) b =>
    .ok () { b with tally := { b.tally with skipped := b.tally.skipped + 1 } }
  | .error stop b => .error stop b

/-- Number and text of a line only show in the report of a refusal. -/
theorem hushed_reach (index : Nat) (source : String) (act : Action Unit) (b : Bench) :
    hushed (reach index source act b) = settled (hushed (act b)) := by
  unfold reach
  cases act b with
  | ok _ c => rfl
  | error stop c => cases stop <;> rfl

def lineAll (ls : List ProgramLine) : Action Unit := visitAll (ls.map (.line 0))

/-- Of what a run visits only the lines matter. -/
theorem hushed_visitAll (vs : List Visit) {b b' : Bench} (h : b.quiet = b'.quiet) :
    hushed (visitAll vs b) = hushed (lineAll (vs.filterMap Visit.line?) b') := by
  induction vs generalizing b b' with
  | nil => exact congrArg (EStateM.Result.ok ()) h
  | cons v vs ih =>
    rw [visitAll_cons]
    cases v with
    | opened index cycles => exact ih (b := b.noted (.replaying index cycles)) h
    | closed => exact ih (b := { b with tally := { b.tally with executed := b.tally.executed + 1 } }) h
    | line index l =>
      have hline : hushed (visit (.line index l) b) = hushed (visit (.line 0 l) b') := by
        rw [visit, visit, hushed_reach, hushed_reach, (carryOut_uses l).hushed_eq h]
      exact hushed_bind hline fun c c' hc => ih hc

theorem hushed_visitAll_congr {vs vs' : List Visit}
    (hlines : vs.filterMap Visit.line? = vs'.filterMap Visit.line?) {b b' : Bench}
    (h : b.quiet = b'.quiet) : hushed (visitAll vs b) = hushed (visitAll vs' b') := by
  rw [hushed_visitAll vs h, hushed_visitAll vs' rfl, hlines]

end Action

/-! ## What is counted -/

/-- Commands that completed or were refused. -/
def Tally.counted (t : Tally) : Nat := t.executed + t.skipped

/-- No command counts itself. -/
theorem Effect.apply_executed (e : Effect) (b : Bench) :
    (e.apply b).tally.executed = b.tally.executed := by
  cases e with
  | countMove samples => rfl
  | _ => rw [apply_tally (by simp)]

theorem Effect.apply_skipped (e : Effect) (b : Bench) :
    (e.apply b).tally.skipped = b.tally.skipped := by
  cases e with
  | countMove samples => rfl
  | _ => rw [apply_tally (by simp)]

theorem Bench.Reaches.executed {K : Effect → Prop} {b b' : Bench} (h : Reaches K b b') :
    b'.tally.executed = b.tally.executed :=
  h.frame (·.tally.executed) fun e _ => e.apply_executed

theorem Bench.Reaches.skipped {K : Effect → Prop} {b b' : Bench} (h : Reaches K b b') :
    b'.tally.skipped = b.tally.skipped :=
  h.frame (·.tally.skipped) fun e _ => e.apply_skipped

def Visit.completes (v : Visit) (b : Bench) : Bool :=
  match v with
  | .line _ l => (Action.carryOut l).completes b
  | _ => false

namespace Action

def completions : List Visit → Bench → Nat
  | [], _ => 0
  | v :: vs, b =>
    match visit v b with
    | .ok _ c => (if v.completes b then 1 else 0) + completions vs c
    | .error _ _ => 0

/-- A line that completes is counted as executed, and a replay is when it is over. -/
theorem visit_executed {v : Visit} {b b' : Bench} (h : visit v b = .ok () b') :
    b'.tally.executed =
      b.tally.executed + (if v.completes b then 1 else 0) + if v.closes then 1 else 0 := by
  cases v with
  | opened index cycles =>
    cases h
    rfl
  | line index l =>
    rcases reach_ok h with ⟨c, hc, rfl⟩ | ⟨why, c, hc, rfl⟩
    · have hsame := ((carryOut_uses l).reaches_of_ok hc).executed
      simp [Visit.completes, completes, Visit.closes, hc, hsame]
    · have hsame := ((carryOut_uses l).reaches_of_error hc).executed
      simp [Visit.completes, completes, Visit.closes, hc, hsame]
  | closed =>
    cases h
    rfl

/-- What was executed is what was completed, and one for each replay that is over. -/
theorem visitAll_executed {vs : List Visit} {b b' : Bench} (h : visitAll vs b = .ok () b') :
    b'.tally.executed = b.tally.executed + completions vs b + vs.countP Visit.closes := by
  induction vs generalizing b with
  | nil =>
    cases h
    rfl
  | cons v vs ih =>
    obtain ⟨_, c, hv, hvs⟩ := bind_eq_ok.1 h
    have hlater := ih hvs
    rw [visit_executed hv] at hlater
    simp only [completions, hv, List.countP_cons]
    omega

/-- A line that is reached counts once, executed or skipped, and so does a replay that is over. -/
theorem visit_counted {v : Visit} {b b' : Bench} (h : visit v b = .ok () b') :
    b'.tally.counted = b.tally.counted + if v.counts then 1 else 0 := by
  cases v with
  | opened index cycles =>
    cases h
    rfl
  | line index l =>
    rcases reach_ok h with ⟨c, hc, rfl⟩ | ⟨why, c, hc, rfl⟩
    · have hreaches := (carryOut_uses l).reaches_of_ok hc
      simp only [Tally.counted, Visit.counts, hreaches.executed, hreaches.skipped, if_true]
      omega
    · have hreaches := (carryOut_uses l).reaches_of_error hc
      simp only [Tally.counted, Visit.counts, hreaches.executed, hreaches.skipped, if_true]
      omega
  | closed =>
    cases h
    simp only [Tally.counted, Visit.counts, if_true]
    omega

theorem visitAll_counted {vs : List Visit} {b b' : Bench} (h : visitAll vs b = .ok () b') :
    b'.tally.counted = b.tally.counted + vs.countP Visit.counts := by
  induction vs generalizing b with
  | nil =>
    cases h
    rfl
  | cons v vs ih =>
    obtain ⟨_, c, hv, hvs⟩ := bind_eq_ok.1 h
    rw [ih hvs, visit_counted hv, List.countP_cons]
    omega

end Action

namespace Bench

theorem started_quiet (b : Bench) (p p' : Program) :
    (b.started p).quiet = (b.started p').quiet := by
  have hsame (p : Program) := afterOccasion_quiet
    { b.noted (.runStarted p.length p.errorCount) with tally := {} } .enable
  exact congrArg (energised · true) ((hsame p).trans (hsame p').symm)

theorem finished_quiet {b b' : Bench} (h : b.quiet = b'.quiet) :
    b.finished.quiet = b'.finished.quiet := by
  have hsame : (b.afterOccasion .disable).quiet = (b'.afterOccasion .disable).quiet := by
    rw [b.afterOccasion_quiet, b'.afterOccasion_quiet, h]
  exact congrArg (energised · false) hsame

end Bench

namespace Program

variable {p : Program}

/-- A program without replays is written out already. -/
theorem flat_eq_take (h : ∀ l ∈ p, l.cycles? = none) (n : Nat) : p.flat n = p.take n := by
  induction n with
  | zero => rfl
  | succ n ih =>
    rw [flat, ih, List.take_add_one]
    cases hl : p[n]? with
    | none => rfl
    | some l => simp [h l (List.mem_of_getElem? hl)]

/-- Without replays the visits are the lines in order. -/
theorem visits_take_eq_zipIdx (h : ∀ l ∈ p, l.cycles? = none) (n : Nat) :
    p.visits n = (p.take n).zipIdx.map fun (l, i) => .line i l := by
  induction n with
  | zero => rfl
  | succ n ih =>
    rw [visits, ih, List.take_add_one]
    cases hl : p[n]? with
    | none => simp
    | some l =>
      have hn : n < p.length := (List.getElem?_eq_some_iff.1 hl).1
      have hlength : min n p.length = n := by omega
      simp [h l (List.mem_of_getElem? hl), List.zipIdx_append, hlength]

theorem visits_eq_zipIdx (h : ∀ l ∈ p, l.cycles? = none) :
    p.visits p.length = p.zipIdx.map fun (l, i) => .line i l := by
  rw [visits_take_eq_zipIdx h, List.take_length]

theorem replays_eq_zero (h : ∀ l ∈ p, l.cycles? = none) (n : Nat) : p.replays n = 0 := by
  induction n with
  | zero => rfl
  | succ n ih =>
    rw [replays, ih]
    cases hl : p[n]? with
    | none => rfl
    | some l => simp [h l (List.mem_of_getElem? hl)]

end Program

namespace Action

theorem run_counted {p : Program} {t : Tally} {b b' : Bench} (h : run p b = .ok t b') :
    t.counted = (p.flat p.length).length + p.replays p.length := by
  obtain ⟨c, hvisits, rfl, _⟩ := run_eq_ok.1 h
  have hcounted := visitAll_counted hvisits
  have hzero : (b.started p).tally.counted = 0 := by
    rw [(b.started_spared p).tally]
    rfl
  rw [c.finished_spared.tally, hcounted, hzero, Program.counts_visits, Nat.zero_add]

theorem run_executed {p : Program} {t : Tally} {b b' : Bench} (h : run p b = .ok t b') :
    t.executed = completions (p.visits p.length) (b.started p) + p.replays p.length := by
  obtain ⟨c, hvisits, rfl, _⟩ := run_eq_ok.1 h
  have hexecuted := visitAll_executed hvisits
  rw [(b.started_spared p).tally, Program.closings_visits] at hexecuted
  rw [c.finished_spared.tally, hexecuted, Nat.zero_add]

/-- A run of a program comes to the same as a run of the program with every replay written out:
both leave the same bench, but for the log and the replays, which are counted as executed, and the
driver is released. -/
theorem run_flat {p : Program} {t : Tally} {b b' : Bench} (h : run p b = .ok t b') :
    ∃ t' b'', run (p.flat p.length) b = .ok t' b'' ∧ b'.quiet = b''.quiet ∧
      t = { t' with executed := t'.executed + p.replays p.length } ∧
      t'.executed = completions ((p.flat p.length).zipIdx.map fun (l, i) => .line i l)
        (b.started (p.flat p.length)) ∧
      t'.executed + t'.skipped = (p.flat p.length).length ∧
      (∀ l ∈ p.flat p.length, ∀ cycles, l.command ≠ .ok (.replay cycles)) ∧
      b'.actuator.enabled = false := by
  have hplain : ∀ l ∈ p.flat p.length, l.cycles? = none := fun l hl =>
    Program.cycles?_of_mem_flat hl
  obtain ⟨c, hvisits, ht, hb'⟩ := run_eq_ok.1 h
  have hlines : (p.visits p.length).filterMap Visit.line? =
      ((p.flat p.length).visits (p.flat p.length).length).filterMap Visit.line? := by
    rw [Program.lines_visits, Program.lines_visits, Program.flat_eq_take hplain, List.take_length]
  have hsame := hushed_visitAll_congr hlines (b.started_quiet p (p.flat p.length))
  rw [hvisits] at hsame
  obtain ⟨c', hvisits', hquiet⟩ := exists_ok_of_hushed_eq hsame
  have hrun := run_eq_ok.2 ⟨c', hvisits', rfl, rfl⟩
  have hend := Bench.finished_quiet hquiet
  have hcount := run_counted h
  have hcount' := run_counted hrun
  have hexecuted := run_executed hrun
  rw [Program.flat_eq_take hplain, List.take_length, Program.replays_eq_zero hplain] at hcount'
  rw [Program.visits_eq_zipIdx hplain, Program.replays_eq_zero hplain] at hexecuted
  have hrest : { t with executed := 0 } = { c'.finished.tally with executed := 0 } := by
    rw [ht]
    exact congrArg Bench.tally hend
  refine ⟨_, _, hrun, ?_, ?_, hexecuted, hcount', ?_, ?_⟩
  · rw [hb']
    exact hend
  · obtain ⟨executed, skipped, moves, samples⟩ := t
    simp only [Tally.mk.injEq, true_and, Tally.counted] at hrest hcount hcount' ⊢
    obtain ⟨rfl, rfl, rfl⟩ := hrest
    refine ⟨?_, rfl, rfl, rfl⟩
    omega
  · intro l hl cycles hcommand
    have hcycles := hplain l hl
    simp [ProgramLine.cycles?, hcommand] at hcycles
  · rw [hb']
    rfl

/-- A move, a line that is no command, and two replays, one of which replays the other. -/
def nestedReplays : Program := .ofLines ["G01 X0.05 F10 RLC3", "G09", "G03 C2", "G03 C1"]

theorem nestedReplays_flat : ∃ t t' b' b'', run nestedReplays plainBench = .ok t b' ∧
    run (nestedReplays.flat nestedReplays.length) plainBench = .ok t' b'' ∧
    b'.quiet = b''.quiet ∧ t = { t' with executed := t'.executed + 3 } := by
  have hcompletes : (run nestedReplays).completes plainBench := by decide +kernel
  obtain ⟨t, b', h⟩ := exists_of_completes hcompletes
  obtain ⟨t', b'', hflat, hquiet, htally, _⟩ := run_flat h
  have hreplays : nestedReplays.replays nestedReplays.length = 3 := by decide +kernel
  rw [hreplays] at htally
  exact ⟨t, t', b', b'', h, hflat, hquiet, htally⟩

end Action

end LoadBench
