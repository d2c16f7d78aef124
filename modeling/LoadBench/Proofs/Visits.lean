import LoadBench.Proofs.Refusal

/-!
# What a run visits

A replay runs the lines before it again, and the replays among them, too. Which lines a run comes
to, and in what order, is settled by the program alone: it is a list of visits, and the run carries
out one after the other. Only what a visit does depends on the bench.
-/

namespace LoadBench

def ProgramLine.cycles? (l : ProgramLine) : Option Nat :=
  match l.command with
  | .ok (.replay cycles) => some cycles
  | _ => none

inductive Visit where
  /-- A replay is reached. -/
  | opened (index cycles : Nat)
  /-- A line that is no replay is reached. -/
  | line (index : Nat) (l : ProgramLine)
  /-- The innermost replay is over. -/
  | closed

namespace Visit

def line? : Visit → Option ProgramLine
  | .line _ l => some l
  | _ => none

def counts : Visit → Bool
  | .opened _ _ => false
  | _ => true

def closes : Visit → Bool
  | .closed => true
  | _ => false

end Visit

namespace Program

/-- The visits of the first `n` lines. -/
def visits (p : Program) : Nat → List Visit
  | 0 => []
  | n + 1 => p.visits n ++
    match p[n]? with
    | none => []
    | some l =>
      match l.cycles? with
      | some cycles =>
        .opened n cycles :: ((List.replicate cycles (p.visits n)).flatten ++ [.closed])
      | none => [.line n l]

/-- The first `n` lines with every replay written out. -/
def flat (p : Program) : Nat → Program
  | 0 => []
  | n + 1 => p.flat n ++
    match p[n]? with
    | none => []
    | some l =>
      match l.cycles? with
      | some cycles => (List.replicate cycles (p.flat n)).flatten
      | none => [l]

def replays (p : Program) : Nat → Nat
  | 0 => 0
  | n + 1 => p.replays n +
    match p[n]? with
    | none => 0
    | some l =>
      match l.cycles? with
      | some cycles => cycles * p.replays n + 1
      | none => 0

/-- The program written out consists of its lines that are no replays. -/
theorem of_mem_flat {p : Program} {n : Nat} {l : ProgramLine} (h : l ∈ p.flat n) :
    l ∈ p ∧ l.cycles? = none := by
  induction n with
  | zero => cases h
  | succ n ih =>
    rw [flat, List.mem_append] at h
    rcases h with h | h
    · exact ih h
    · cases hl : p[n]? with
      | none => simp [hl] at h
      | some l' =>
        cases hc : l'.cycles? with
        | none =>
          simp only [hl, hc, List.mem_singleton] at h
          exact h ▸ ⟨List.mem_of_getElem? hl, hc⟩
        | some cycles =>
          simp only [hl, hc, List.mem_flatten, List.mem_replicate] at h
          obtain ⟨front, ⟨_, rfl⟩, hmem⟩ := h
          exact ih hmem

theorem cycles?_of_mem_flat {p : Program} {n : Nat} {l : ProgramLine} (h : l ∈ p.flat n) :
    l.cycles? = none := (of_mem_flat h).2

theorem lines_flatten_replicate (vs : List Visit) (cycles : Nat) :
    (List.replicate cycles vs).flatten.filterMap Visit.line? =
      (List.replicate cycles (vs.filterMap Visit.line?)).flatten := by
  induction cycles with
  | zero => rfl
  | succ cycles ih =>
    rw [List.replicate_succ, List.flatten_cons, List.filterMap_append, ih, List.replicate_succ,
      List.flatten_cons]

/-- The lines that a run visits are those of the program written out. -/
theorem lines_visits (p : Program) (n : Nat) :
    (p.visits n).filterMap Visit.line? = p.flat n := by
  induction n with
  | zero => rfl
  | succ n ih =>
    rw [visits, flat, List.filterMap_append, ih]
    cases p[n]? with
    | none => rfl
    | some l =>
      cases hc : l.cycles? with
      | none => simp [hc, Visit.line?]
      | some cycles =>
        have hinner := lines_flatten_replicate (p.visits n) cycles
        rw [ih] at hinner
        simp only [hc]
        rw [List.filterMap_cons_none rfl, List.filterMap_append, hinner]
        exact congrArg _ (List.append_nil _)

/-- A line that is visited is one of the program. -/
theorem mem_of_mem_visits {p : Program} {n : Nat} {v : Visit} (h : v ∈ p.visits n)
    {l : ProgramLine} (hl : v.line? = some l) : l ∈ p := by
  have hflat : l ∈ p.flat n := by
    rw [← lines_visits]
    exact List.mem_filterMap.2 ⟨v, h, hl⟩
  exact (of_mem_flat hflat).1

theorem countP_flatten_replicate {α : Type} (f : α → Bool) (as : List α) (cycles : Nat) :
    (List.replicate cycles as).flatten.countP f = cycles * as.countP f := by
  induction cycles with
  | zero => simp
  | succ cycles ih =>
    rw [List.replicate_succ, List.flatten_cons, List.countP_append, ih, Nat.succ_mul]
    omega

/-- A run closes as many replays as there are replays to reach. -/
theorem closings_visits (p : Program) (n : Nat) :
    (p.visits n).countP Visit.closes = p.replays n := by
  induction n with
  | zero => rfl
  | succ n ih =>
    rw [visits, replays, List.countP_append, ih]
    cases p[n]? with
    | none => rfl
    | some l =>
      cases hc : l.cycles? with
      | none => simp [hc, Visit.closes]
      | some cycles =>
        have hinner := countP_flatten_replicate Visit.closes (p.visits n) cycles
        rw [ih] at hinner
        simp [hc, hinner, Visit.closes]

/-- What counts is a line or the end of a replay. -/
theorem countP_counts (vs : List Visit) :
    vs.countP Visit.counts = (vs.filterMap Visit.line?).length + vs.countP Visit.closes := by
  induction vs with
  | nil => rfl
  | cons v vs ih =>
    rw [List.countP_cons, List.countP_cons, ih]
    cases v with
    | opened index cycles => rfl
    | line index l =>
      have hline : (Visit.line index l).line? = some l := rfl
      rw [List.filterMap_cons_some hline, List.length_cons]
      simp only [Visit.counts, Visit.closes, if_true, Bool.false_eq_true, if_false]
      omega
    | closed =>
      have hclosed : Visit.closed.line? = none := rfl
      rw [List.filterMap_cons_none hclosed]
      simp only [Visit.counts, Visit.closes, if_true]
      omega

theorem counts_visits (p : Program) (n : Nat) :
    (p.visits n).countP Visit.counts = (p.flat n).length + p.replays n := by
  rw [countP_counts, lines_visits, closings_visits]

end Program

namespace Action

def carryOut (l : ProgramLine) : Action Unit :=
  match l.command with
  | .ok command => execute command
  | .error e => refuse (.line e)

theorem carryOut_uses (l : ProgramLine) : Uses (fun _ => True) (carryOut l) := by
  unfold carryOut
  cases l.command with
  | ok command => exact (execute_uses command).mono fun _ _ => trivial
  | error e => exact uses_refuse trivial

def visit : Visit → Action Unit
  | .opened index cycles => note (.replaying index cycles)
  | .line index l => reach index l.source (carryOut l)
  | .closed => countExecuted

def visitAll (vs : List Visit) : Action Unit := vs.forM visit

theorem visitAll_append (vs ws : List Visit) :
    visitAll (vs ++ ws) = (visitAll vs >>= fun _ => visitAll ws) :=
  List.forM_append

theorem visitAll_cons (v : Visit) (vs : List Visit) :
    visitAll (v :: vs) = (visit v >>= fun _ => visitAll vs) := rfl

theorem visitAll_singleton (v : Visit) : visitAll [v] = visit v := bind_pure (visit v)

variable {b b' : Bench}

/-- A line that is reached completes, or it is refused and skipped. -/
theorem reach_ok {index : Nat} {source : String} {act : Action Unit}
    (h : reach index source act b = .ok () b') :
    (∃ c, act b = .ok () c ∧
      b' = { c with tally := { c.tally with executed := c.tally.executed + 1 } }) ∨
    ∃ why c, act b = .error (.refused why) c ∧
      b' = { c.noted (.skipped index source why) with
        tally := { c.tally with skipped := c.tally.skipped + 1 } } := by
  unfold reach at h
  split at h
  · next c hc =>
    cases h
    exact .inl ⟨c, hc, rfl⟩
  · next why c hc =>
    cases h
    exact .inr ⟨why, c, hc, rfl⟩
  · cases h

theorem carryOut_ok {l : ProgramLine} (h : carryOut l b = .ok () b') :
    ∃ command, l.command = .ok command ∧ execute command b = .ok () b' := by
  obtain ⟨source, e | command⟩ := l
  · cases h
  · exact ⟨command, rfl, h⟩

/-- A line that is no command is refused on the spot. -/
theorem carryOut_refused {l : ProgramLine} {why : Refusal}
    (h : carryOut l b = .error (.refused why) b') :
    (∃ command, l.command = .ok command ∧ execute command b = .error (.refused why) b') ∨
      b' = b := by
  obtain ⟨source, e | command⟩ := l
  · cases h
    exact .inr rfl
  · exact .inl ⟨command, rfl, h⟩

/-- Whatever it carries out, a line that is reached is not refused. -/
theorem reach_not_refused {index : Nat} {source : String} {act : Action Unit} {why : Refusal} :
    reach index source act b ≠ .error (.refused why) b' := by
  intro h
  unfold reach at h
  split at h
  · cases h
  · cases h
  · next stop c hstop _ =>
    cases h
    exact hstop why rfl

theorem visit_not_refused {v : Visit} {why : Refusal} : visit v b ≠ .error (.refused why) b' := by
  cases v with
  | opened index cycles => exact nofun
  | line index l => exact reach_not_refused
  | closed => exact nofun

theorem visitAll_not_refused {vs : List Visit} {why : Refusal} :
    visitAll vs b ≠ .error (.refused why) b' := by
  induction vs generalizing b with
  | nil => exact nofun
  | cons v vs ih =>
    intro h
    rw [visitAll_cons] at h
    rcases bind_eq_error.1 h with h | ⟨_, c, _, h⟩
    · exact visit_not_refused h
    · exact ih h

/-- What commands of a kind keep, completed or refused, a visit to a line of this kind keeps that is
not about log or counts. -/
theorem visit_invariant_of {C : Command → Prop} {P : Bench → Prop}
    (hcounts : ∀ b log executed skipped, P b →
      P { b with log, tally := { b.tally with executed, skipped } })
    (hok : ∀ c b b', C c → execute c b = .ok () b' → P b → P b')
    (hrefused : ∀ c why b b', C c → execute c b = .error (.refused why) b' → P b → P b')
    {v : Visit} (hv : ∀ l, v.line? = some l → ∀ c, l.command = .ok c → C c)
    (h : visit v b = .ok () b') (hb : P b) : P b' := by
  cases v with
  | opened index cycles =>
    cases h
    exact hcounts b _ _ _ hb
  | line index l =>
    rcases reach_ok h with ⟨c, hc, rfl⟩ | ⟨why, c, hc, rfl⟩
    · obtain ⟨command, hl, hcommand⟩ := carryOut_ok hc
      exact hcounts c _ _ _ (hok command b c (hv l rfl command hl) hcommand hb)
    · rcases carryOut_refused hc with ⟨command, hl, hcommand⟩ | rfl
      · exact hcounts c _ _ _ (hrefused command why b c (hv l rfl command hl) hcommand hb)
      · exact hcounts c _ _ _ hb
  | closed =>
    cases h
    exact hcounts b _ _ _ hb

/-- What all commands keep, every visit keeps that is not about log or counts. -/
theorem visit_invariant {P : Bench → Prop}
    (hcounts : ∀ b log executed skipped, P b →
      P { b with log, tally := { b.tally with executed, skipped } })
    (hok : ∀ c b b', execute c b = .ok () b' → P b → P b')
    (hrefused : ∀ c why b b', execute c b = .error (.refused why) b' → P b → P b')
    {v : Visit} (h : visit v b = .ok () b') (hb : P b) : P b' :=
  visit_invariant_of (C := fun _ => True) hcounts (fun c b b' _ => hok c b b')
    (fun c why b b' _ => hrefused c why b b') (fun _ _ _ _ => trivial) h hb

/-- What each visit of a list keeps is kept by all. -/
theorem visitAll_invariant_of {P : Bench → Prop} {vs : List Visit}
    (hvisit : ∀ v ∈ vs, ∀ b b', visit v b = .ok () b' → P b → P b')
    (h : visitAll vs b = .ok () b') (hb : P b) : P b' := by
  induction vs generalizing b with
  | nil =>
    cases h
    exact hb
  | cons v vs ih =>
    obtain ⟨_, c, hv, hvs⟩ := bind_eq_ok.1 h
    have hc := hvisit v List.mem_cons_self b c hv hb
    exact ih (fun w hw => hvisit w (List.mem_cons_of_mem v hw)) hvs hc

/-- What each visit keeps is kept by all. -/
theorem visitAll_invariant {P : Bench → Prop}
    (hvisit : ∀ v b b', visit v b = .ok () b' → P b → P b') {vs : List Visit}
    (h : visitAll vs b = .ok () b') (hb : P b) : P b' :=
  visitAll_invariant_of (fun v _ => hvisit v) h hb

/-- What is never refused is carried out and counted. -/
theorem reach_eq {act : Action Unit} (h : ∀ b b' why, act b ≠ .error (.refused why) b')
    (index : Nat) (source : String) :
    reach index source act = (act >>= fun _ => countExecuted) := by
  funext b
  unfold reach
  simp only [bind, EStateM.bind]
  cases hact : act b with
  | ok a c => rfl
  | error stop c =>
    cases stop with
    | refused why => exact absurd hact (h b c why)
    | exhausted what => rfl
    | awaitingOperator => rfl

theorem times_visitAll (cycles : Nat) (vs : List Visit) :
    times cycles (visitAll vs) = visitAll (List.replicate cycles vs).flatten := by
  induction cycles with
  | zero => rfl
  | succ cycles ih =>
    rw [times, ih, List.replicate_succ, List.flatten_cons, visitAll_append]

/-- A replay line is opened, repeats what was before it, and is closed. -/
theorem runLine_of_replay {l : ProgramLine} {cycles : Nat} (h : l.cycles? = some cycles)
    (index : Nat) (vs : List Visit) :
    runLine index l (visitAll vs) =
      visitAll (.opened index cycles :: ((List.replicate cycles vs).flatten ++ [.closed])) := by
  have hcommand : l.command = .ok (.replay cycles) := by
    unfold ProgramLine.cycles? at h
    split at h
    · next hl => rw [hl, Option.some.inj h]
    · cases h
  have hinner : (do note (.replaying index cycles); times cycles (visitAll vs)) =
      visitAll (.opened index cycles :: (List.replicate cycles vs).flatten) := by
    rw [times_visitAll, visitAll_cons]
    rfl
  unfold runLine
  rw [hcommand]
  simp only [hinner]
  rw [reach_eq fun _ _ _ => visitAll_not_refused, ← List.cons_append, visitAll_append]
  rfl

theorem runLine_of_cycles?_eq_none {l : ProgramLine} (h : l.cycles? = none) (index : Nat)
    (before : Action Unit) : runLine index l before = visitAll [.line index l] := by
  have hvisit : runLine index l before = visit (.line index l) := by
    obtain ⟨source, command⟩ := l
    rcases command with e | c
    · rfl
    · cases c with
      | replay cycles => cases h
      | _ => rfl
  rw [hvisit, visitAll_singleton]

/-- A run of the first lines of a program makes their visits in order. -/
theorem runFront_eq (p : Program) (n : Nat) : runFront p n = visitAll (p.visits n) := by
  induction n with
  | zero => rfl
  | succ n ih =>
    rw [runFront, ih, Program.visits, visitAll_append]
    congr 1
    funext _
    cases hl : p[n]? with
    | none => rfl
    | some l =>
      cases hc : l.cycles? with
      | none =>
        simp only [hc]
        exact runLine_of_cycles?_eq_none hc n _
      | some cycles =>
        simp only [hc]
        exact runLine_of_replay hc n _

end Action

namespace Bench

def started (b : Bench) (p : Program) : Bench :=
  (afterOccasion { b.noted (.runStarted p.length p.errorCount) with tally := {} } .enable).energised
    true

def finished (b : Bench) : Bench := (b.afterOccasion .disable).energised false

theorem Spared.energised {b b' : Bench} (h : b.Spared b') (on : Bool) :
    b.Spared (b'.energised on) :=
  ⟨h.calibration, h.driverScale, h.driverOffset, h.tally, h.requests, h.schedule, h.mailbox,
    h.unattended⟩

/-- But for a new tally, nothing is set before the first line. -/
theorem started_spared (b : Bench) (p : Program) : { b with tally := {} }.Spared (b.started p) := by
  have hnoted : { b with tally := {} }.Spared
      { b.noted (.runStarted p.length p.errorCount) with tally := {} } :=
    Effect.apply_spared (e := .note _) trivial _
  exact (hnoted.trans (afterOccasion_spared _ .enable)).energised true

theorem finished_spared (b : Bench) : b.Spared b.finished :=
  (b.afterOccasion_spared .disable).energised false

end Bench

namespace Action

/-- A run completes if all its visits do. -/
theorem run_eq_ok {p : Program} {t : Tally} {b b' : Bench} :
    run p b = .ok t b' ↔ ∃ c, visitAll (p.visits p.length) (b.started p) = .ok () c ∧
      t = c.finished.tally ∧ b' = c.finished.noted (.runFinished t) := by
  rw [run, note_bind_apply, modify_bind_apply, occasion_bind_apply, modify_bind_apply, runFront_eq]
  constructor
  · intro h
    obtain ⟨_, c, hvisits, hend⟩ := bind_eq_ok.1 h
    cases hend
    exact ⟨c, hvisits, rfl, rfl⟩
  · rintro ⟨c, hvisits, rfl, rfl⟩
    exact bind_eq_ok.2 ⟨(), c, hvisits, rfl⟩

/-- A bench that nobody attends to. -/
def plainBench : Bench where
  cell := { zeroCounts := 0, countsPerUnit := 1 }
  operator := { pollMillis := 1, sources := [] }
  ticksLeft := 1000
  delaysLeft := 1000

end Action

end LoadBench
