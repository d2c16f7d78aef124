import Mathlib.Algebra.BigOperators.Group.Finset.Basic
import LoadBench.Proofs.Replay

/-!
# The accounts of a run

How often a run reaches a line is settled by the replays after it: each of them multiplies. Every
time a line is reached it ends as executed or as skipped, and the endings of a run, in order, give
its tally and the errors in its log.
-/

namespace LoadBench

/-! ## Errors in the log -/

namespace Bench

/-- The log has grown, and these are the errors among its new records. -/
def Reports (b b' : Bench) (errors : List Notice) : Prop :=
  ∃ new, b'.log.toList = b.log.toList ++ new ∧
    (new.map Record.notice).filter (·.level = .error) = errors

variable {b b' b'' : Bench}

theorem Reports.of_same (h : b'.log = b.log) : b.Reports b' [] :=
  ⟨[], by rw [h, List.append_nil], rfl⟩

theorem Reports.trans {errors errors' : List Notice} (h : b.Reports b' errors)
    (h' : b'.Reports b'' errors') : b.Reports b'' (errors ++ errors') := by
  obtain ⟨new, hlog, rfl⟩ := h
  obtain ⟨new', hlog', rfl⟩ := h'
  refine ⟨new ++ new', ?_, ?_⟩
  · rw [hlog', hlog, List.append_assoc]
  · rw [List.map_append, List.filter_append]

theorem noted_reports (b : Bench) (n : Notice) :
    b.Reports (b.noted n) ([n].filter (·.level = .error)) :=
  ⟨[_], Array.toList_push, rfl⟩

theorem noted_mild {n : Notice} (h : n.level ≠ .error) (b : Bench) : b.Reports (b.noted n) [] := by
  have hnone : [n].filter (·.level = .error) = [] := by simp [h]
  exact hnone ▸ b.noted_reports n

theorem delivered_reports (b : Bench) (s : Sample) : b.Reports (b.delivered s) [] := by
  unfold delivered
  by_cases hreports : b.sampler.sink.reports
  · simp only [hreports, if_true]
    exact Reports.trans (noted_mild (n := .sampled s) nofun b) (.of_same rfl)
  · simp only [hreports]
    exact .of_same rfl

theorem afterTurn_reports (b : Bench) (t : Turn) : b.Reports (b.afterTurn t) [] := by
  cases t with
  | discard => exact .of_same rfl
  | serve =>
    simp only [afterTurn, served]
    split
    · exact .of_same rfl
    · exact Reports.trans (.of_same rfl) (delivered_reports _ _)

theorem afterTurns_reports (ts : List Turn) (b : Bench) :
    b.Reports (ts.foldl afterTurn b) [] := by
  induction ts generalizing b with
  | nil => exact .of_same rfl
  | cons t ts ih => exact (b.afterTurn_reports t).trans (ih _)

/-- The sampling reports no errors. -/
theorem afterOccasion_reports (b : Bench) (o : Occasion) : b.Reports (b.afterOccasion o) [] :=
  Reports.trans (.of_same rfl) (afterTurns_reports _ _)

theorem posted_reports (b : Bench) (r : Request) : b.Reports (b.posted r) [] := by
  unfold posted
  cases b.mailbox.pending with
  | none => exact .of_same rfl
  | some old =>
    exact Reports.trans (.of_same rfl)
      (noted_mild (n := .requestOverwritten old.index r.index) nofun _)

theorem started_reports (b : Bench) (p : Program) : b.Reports (b.started p) [] := by
  have hnoted := noted_mild (n := .runStarted p.length p.errorCount) nofun b
  have hcleared : b.Reports { b.noted (.runStarted p.length p.errorCount) with tally := {} } [] :=
    hnoted.trans (.of_same rfl)
  exact (hcleared.trans (afterOccasion_reports _ .enable)).trans (.of_same rfl)

theorem finished_reports (b : Bench) : b.Reports b.finished [] :=
  (b.afterOccasion_reports .disable).trans (.of_same rfl)

end Bench

theorem Effect.apply_reports {e : Effect} (h : e.Mild) (b : Bench) : b.Reports (e.apply b) [] := by
  cases e with
  | note n => exact b.noted_mild h
  | occasion o => exact b.afterOccasion_reports o
  | post r => exact b.posted_reports r
  | change changes =>
    simp only [apply]
    split <;> exact .of_same rfl
  | _ => exact .of_same rfl

theorem Bench.Reaches.reports {K : Effect → Prop} (hK : ∀ e, K e → e.Mild) {b b' : Bench}
    (h : Reaches K b b') : b.Reports b' [] :=
  h.invariant (P := fun c => b.Reports c [])
    (fun e he c hc => hc.trans (Effect.apply_reports (hK e he) c)) (.of_same rfl)

theorem Action.carryOut_mild (l : ProgramLine) : Uses Effect.Mild (carryOut l) := by
  unfold carryOut
  cases l.command with
  | ok command => exact (execute_mild command).mono fun _ => And.right
  | error e => exact uses_refuse trivial

/-! ## How often lines are reached -/

def Visit.reaches (i : Nat) : Visit → Bool
  | .opened index _ => index = i
  | .line index _ => index = i
  | .closed => false

structure Passage where
  index : Nat
  line : ProgramLine
  visit : Visit

def Passage.Fits (p : Program) (s : Passage) : Prop :=
  p[s.index]? = some s.line ∧
    match s.visit with
    | .opened index cycles => index = s.index ∧ s.line.cycles? = some cycles
    | .line index l => index = s.index ∧ l = s.line ∧ s.line.cycles? = none
    | .closed => s.line.cycles?.isSome

namespace Program

/-- How often a run reaches line `i`: once, times one more than the cycles for each later replay. -/
def times (p : Program) (i : Nat) : Nat :=
  (((p.drop (i + 1)).filterMap ProgramLine.cycles?).map (1 + ·)).prod

def passages (p : Program) : Nat → List Passage
  | 0 => []
  | n + 1 => p.passages n ++
    match p[n]? with
    | none => []
    | some l =>
      match l.cycles? with
      | some cycles =>
        ⟨n, l, .opened n cycles⟩ ::
          ((List.replicate cycles (p.passages n)).flatten ++ [⟨n, l, .closed⟩])
      | none => [⟨n, l, .line n l⟩]

variable (p : Program)

/-- The passages of a run, without their lines, are its visits in order. -/
theorem passages_visits (n : Nat) : (p.passages n).map Passage.visit = p.visits n := by
  induction n with
  | zero => rfl
  | succ n ih =>
    rw [passages, visits, List.map_append, ih]
    cases p[n]? with
    | none => rfl
    | some l =>
      cases hc : l.cycles? with
      | none => simp [hc]
      | some cycles => simp [hc, List.map_flatten, ih]

/-- The passages of a replay line: it is reached, what is before it runs again, and it is over. -/
theorem passages_of_replay {n cycles : Nat} {l : ProgramLine} (hl : p[n]? = some l)
    (hc : l.cycles? = some cycles) : p.passages (n + 1) = p.passages n ++
      ⟨n, l, .opened n cycles⟩ ::
        ((List.replicate cycles (p.passages n)).flatten ++ [⟨n, l, .closed⟩]) := by
  simp [passages, hl, hc]

theorem passages_of_line {n : Nat} {l : ProgramLine} (hl : p[n]? = some l) (hc : l.cycles? = none) :
    p.passages (n + 1) = p.passages n ++ [⟨n, l, .line n l⟩] := by
  simp [passages, hl, hc]

variable {p}

/-- Every passage stands at a line of the program and is of that line. -/
theorem fits_of_mem_passages {n : Nat} {s : Passage} (h : s ∈ p.passages n) :
    s.index < n ∧ s.Fits p := by
  induction n with
  | zero => cases h
  | succ n ih =>
    have hbefore (hs : s ∈ p.passages n) : s.index < n + 1 ∧ s.Fits p :=
      ⟨(ih hs).1.trans n.lt_succ_self, (ih hs).2⟩
    cases hl : p[n]? with
    | none =>
      rw [passages, hl, List.append_nil] at h
      exact hbefore h
    | some l =>
      cases hc : l.cycles? with
      | none =>
        rw [passages_of_line p hl hc, List.mem_append, List.mem_singleton] at h
        rcases h with h | rfl
        · exact hbefore h
        · exact ⟨n.lt_succ_self, hl, rfl, rfl, hc⟩
      | some cycles =>
        rw [passages_of_replay p hl hc] at h
        simp only [List.mem_append, List.mem_cons, List.mem_flatten, List.mem_replicate,
          List.not_mem_nil, or_false] at h
        rcases h with h | rfl | ⟨_, ⟨_, rfl⟩, h⟩ | rfl
        · exact hbefore h
        · exact ⟨n.lt_succ_self, hl, rfl, hc⟩
        · exact hbefore h
        · exact ⟨n.lt_succ_self, hl, by simp [hc]⟩

/-- The last line of a program is reached once. -/
theorem times_take_last (p : Program) (n : Nat) : times (p.take (n + 1)) n = 1 := by
  have hnone : (p.take (n + 1)).drop (n + 1) = [] := by
    rw [List.drop_eq_nil_iff]
    exact List.length_take_le _ _
  rw [times, hnone]
  rfl

/-- A line at the end multiplies how often each line before it is reached. -/
theorem times_take_succ {n i : Nat} {l : ProgramLine} (hl : p[n]? = some l) (hi : i < n) :
    times (p.take (n + 1)) i = (1 + l.cycles?.getD 0) * times (p.take n) i := by
  have hn : n < p.length := (List.getElem?_eq_some_iff.1 hl).1
  have htake : (p.take (n + 1)).drop (i + 1) = (p.take n).drop (i + 1) ++ [l] := by
    rw [List.take_add_one, hl, List.drop_append_of_le_length]
    · rfl
    · rw [List.length_take]
      omega
  rw [times, htake, List.filterMap_append, List.map_append, List.prod_append, Nat.mul_comm]
  cases hc : l.cycles? with
  | none => simp [hc, times]
  | some cycles => simp [hc, times]

theorem countP_passages_eq_zero {n i : Nat} (h : n ≤ i) (f : Visit → Bool) :
    (p.passages n).countP (fun s => s.index = i ∧ f s.visit) = 0 := by
  rw [List.countP_eq_zero]
  intro s hs
  have hindex := (fits_of_mem_passages hs).1
  simp only [decide_eq_true_eq, not_and]
  omega

/-- Whatever tells one passage of each line and one passage of each replay counts how often a line is
reached. -/
theorem countP_passages {f : Visit → Bool} (hline : ∀ index l, f (.line index l) = true)
    (hreplay : ∀ index cycles, f (.opened index cycles) = !f .closed) {n i : Nat} (hi : i < n)
    (hn : n ≤ p.length) :
    (p.passages n).countP (fun s => s.index = i ∧ f s.visit) = times (p.take n) i := by
  induction n with
  | zero => omega
  | succ n ih =>
    have hl : p[n]? = some p[n] := List.getElem?_eq_getElem hn
    cases hc : p[n].cycles? with
    | none =>
      rw [passages_of_line p hl hc, List.countP_append]
      by_cases hlast : i = n
      · subst hlast
        rw [countP_passages_eq_zero le_rfl, times_take_last]
        simp [hline]
      · have hbefore : i < n := by omega
        rw [ih hbefore (by omega), times_take_succ hl hbefore, hc]
        simp [Ne.symm hlast]
    | some cycles =>
      rw [passages_of_replay p hl hc, List.countP_append, List.countP_cons, List.countP_append,
        countP_flatten_replicate]
      by_cases hlast : i = n
      · subst hlast
        rw [countP_passages_eq_zero le_rfl, times_take_last]
        cases hclosed : f .closed <;> simp [hreplay, hclosed]
      · have hbefore : i < n := by omega
        rw [ih hbefore (by omega), times_take_succ hl hbefore, hc]
        simp [Ne.symm hlast, Nat.add_mul]

/-- How often a run reaches a line is the product over the later replays. -/
theorem countP_reaches {i : Nat} (hi : i < p.length) :
    (p.visits p.length).countP (·.reaches i) = p.times i := by
  have hpassages := countP_passages (f := fun v => !v.closes) (fun _ _ => rfl) (fun _ _ => rfl) hi le_rfl
  rw [List.take_length] at hpassages
  rw [← passages_visits, List.countP_map, ← hpassages]
  refine List.countP_congr fun s hs => ?_
  obtain ⟨_, _, hvisit⟩ := fits_of_mem_passages hs
  obtain ⟨index, line, visit⟩ := s
  cases visit with
  | opened index' cycles => simp [Visit.reaches, Visit.closes, hvisit.1]
  | line index' l => simp [Visit.reaches, Visit.closes, hvisit.1]
  | closed => simp [Visit.reaches, Visit.closes]

end Program

/-! ## Endings -/

/-- How it ended that a line was reached. -/
structure Ending where
  index : Nat
  line : ProgramLine
  /-- Why the line was skipped, unless it was executed. -/
  why : Option Refusal

namespace Ending

def executed (e : Ending) : Bool := e.why.isNone

def notice? (e : Ending) : Option Notice := e.why.map (.skipped e.index e.line.source)

end Ending

namespace Action

def refusal? {α : Type} (act : Action α) (b : Bench) : Option Refusal :=
  match act b with
  | .error (.refused why) _ => some why
  | _ => none

end Action

/-- How the line ended that the passage is the last of. -/
def Passage.ending? (s : Passage) (b : Bench) : Option Ending :=
  match s.visit with
  | .opened _ _ => none
  | .line _ l => some ⟨s.index, s.line, (Action.carryOut l).refusal? b⟩
  | .closed => some ⟨s.index, s.line, none⟩

def Passage.endings : List Passage → Bench → List Ending
  | [], _ => []
  | s :: ss, b =>
    match Action.visit s.visit b with
    | .ok _ c => (s.ending? b).toList ++ Passage.endings ss c
    | .error _ _ => []

def Program.endings (p : Program) (b : Bench) : List Ending :=
  Passage.endings (p.passages p.length) (b.started p)

/-- Tally and log have grown by what the endings say. -/
structure Bench.Books (b b' : Bench) (es : List Ending) : Prop where
  executed : b'.tally.executed = b.tally.executed + es.countP Ending.executed
  skipped : b'.tally.skipped = b.tally.skipped + es.countP (!·.executed)
  reports : b.Reports b' (es.filterMap Ending.notice?)

theorem Bench.Books.trans {b b' b'' : Bench} {es es' : List Ending} (h : b.Books b' es)
    (h' : b'.Books b'' es') : b.Books b'' (es ++ es') where
  executed := by rw [h'.executed, h.executed, List.countP_append, Nat.add_assoc]
  skipped := by rw [h'.skipped, h.skipped, List.countP_append, Nat.add_assoc]
  reports := by
    rw [List.filterMap_append]
    exact h.reports.trans h'.reports

namespace Action

variable {p : Program} {b b' : Bench}

/-- A passage books the ending of its line. -/
theorem visit_books {s : Passage} (hs : s.Fits p) (h : visit s.visit b = .ok () b') :
    b.Books b' (s.ending? b).toList := by
  obtain ⟨index, line, v⟩ := s
  obtain ⟨_, hvisit⟩ := hs
  cases v with
  | opened index' cycles =>
    cases h
    exact ⟨rfl, rfl, Bench.noted_mild (n := .replaying index' cycles) nofun b⟩
  | closed =>
    cases h
    exact ⟨rfl, rfl, .of_same rfl⟩
  | line index' l =>
    obtain ⟨rfl, rfl, _⟩ := hvisit
    rcases reach_ok h with ⟨c, hc, rfl⟩ | ⟨why, c, hc, rfl⟩
    · have hreaches := (carryOut_mild l).reaches_of_ok hc
      have hending : Passage.ending? ⟨index', l, .line index' l⟩ b = some ⟨index', l, none⟩ := by
        simp [Passage.ending?, refusal?, hc]
      rw [hending]
      refine ⟨?_, hreaches.skipped, (hreaches.reports fun _ => id).trans (.of_same rfl)⟩
      exact congrArg (· + 1) hreaches.executed
    · have hreaches := (carryOut_mild l).reaches_of_error hc
      have hending : Passage.ending? ⟨index', l, .line index' l⟩ b = some ⟨index', l, some why⟩ := by
        simp [Passage.ending?, refusal?, hc]
      rw [hending]
      refine ⟨hreaches.executed, congrArg (· + 1) hreaches.skipped, ?_⟩
      exact ((hreaches.reports fun _ => id).trans (c.noted_reports _)).trans (.of_same rfl)

/-- Passages book their endings, one after the other. -/
theorem visitAll_books {ss : List Passage} (hss : ∀ s ∈ ss, s.Fits p)
    (h : visitAll (ss.map Passage.visit) b = .ok () b') : b.Books b' (Passage.endings ss b) := by
  induction ss generalizing b with
  | nil =>
    cases h
    exact ⟨rfl, rfl, .of_same rfl⟩
  | cons s ss ih =>
    obtain ⟨_, c, hs, hlater⟩ := bind_eq_ok.1 h
    rw [Passage.endings, hs]
    exact (visit_books (hss s List.mem_cons_self) hs).trans
      (ih (fun s' hs' => hss s' (List.mem_cons_of_mem s hs')) hlater)

/-- Each passage that is the last of its line gives one ending. -/
theorem countP_endings {ss : List Passage} (h : visitAll (ss.map Passage.visit) b = .ok () b') (i : Nat) :
    (Passage.endings ss b).countP (·.index = i) = ss.countP fun s => s.index = i ∧ s.visit.counts := by
  induction ss generalizing b with
  | nil => rfl
  | cons s ss ih =>
    obtain ⟨_, c, hs, hlater⟩ := bind_eq_ok.1 h
    rw [Passage.endings, hs]
    simp only [List.countP_append, List.countP_cons, ih hlater, Nat.add_comm]
    congr 1
    obtain ⟨index, line, v⟩ := s
    cases v <;> simp [Passage.ending?, Visit.counts]

/-- An ending is of some passage, on some bench of the run. -/
theorem exists_passage_of_mem_endings {ss : List Passage} {e : Ending} (he : e ∈ Passage.endings ss b) :
    ∃ s ∈ ss, ∃ c, s.ending? c = some e := by
  induction ss generalizing b with
  | nil => cases he
  | cons s ss ih =>
    rw [Passage.endings] at he
    split at he
    · next c _ =>
      rcases List.mem_append.1 he with he | he
      · exact ⟨s, List.mem_cons_self, b, Option.mem_toList.1 he⟩
      · obtain ⟨s', hs', hending⟩ := ih he
        exact ⟨s', List.mem_cons_of_mem s hs', hending⟩
    · cases he

end Action

namespace Program

variable {p : Program} {b b' : Bench}

theorem cycles?_of_error {l : ProgramLine} {why : LineError} (h : l.command = .error why) :
    l.cycles? = none := by
  rw [ProgramLine.cycles?, h]

theorem refusal?_of_error {l : ProgramLine} {why : LineError} (h : l.command = .error why)
    (b : Bench) : (Action.carryOut l).refusal? b = some (.line why) := by
  rw [Action.carryOut, h]
  rfl

/-- Endings are of lines of the program. A line that is no command is skipped for that, and a
replay is executed. -/
theorem ending_of_mem {e : Ending} (he : e ∈ p.endings b) :
    e.index < p.length ∧ p[e.index]? = some e.line ∧
      (∀ why, e.line.command = .error why → e.why = some (.line why)) ∧
      (e.line.cycles?.isSome → e.why = none) := by
  obtain ⟨s, hs, c, hending⟩ := Action.exists_passage_of_mem_endings he
  obtain ⟨hindex, hline, hvisit⟩ := fits_of_mem_passages hs
  obtain ⟨index, line, v⟩ := s
  cases v with
  | opened index' cycles => cases hending
  | closed =>
    cases hending
    refine ⟨hindex, hline, fun why hwhy => ?_, fun _ => rfl⟩
    simp [cycles?_of_error hwhy] at hvisit
  | line index' l =>
    obtain ⟨rfl, rfl, hcycles⟩ := hvisit
    cases hending
    refine ⟨hindex, hline, fun why hwhy => ?_, fun hreplay => ?_⟩
    · exact refusal?_of_error hwhy c
    · rw [hcycles] at hreplay
      cases hreplay

/-- Where all endings of a line are the same, they are so many of that one. -/
theorem filter_endings_eq {i : Nat} {l : ProgramLine} {why : Option Refusal} (hl : p[i]? = some l)
    (hcount : (p.endings b).countP (·.index = i) = p.times i)
    (hwhy : ∀ e ∈ p.endings b, e.line = l → e.why = why) :
    (p.endings b).filter (·.index = i) = List.replicate (p.times i) ⟨i, l, why⟩ := by
  rw [List.eq_replicate_iff, ← List.countP_eq_length_filter]
  refine ⟨hcount, fun e he => ?_⟩
  obtain ⟨hmem, hindex⟩ := List.mem_filter.1 he
  obtain ⟨_, hline, _⟩ := ending_of_mem hmem
  obtain ⟨index, line, why'⟩ := e
  obtain rfl : index = i := of_decide_eq_true hindex
  obtain rfl : line = l := Option.some.inj (hline.symm.trans hl)
  rw [← hwhy _ hmem rfl]

/-- Endings are counted line by line. -/
theorem length_endings (p : Program) (b : Bench) :
    (p.endings b).length = ∑ i ∈ Finset.range p.length, (p.endings b).countP (·.index = i) := by
  have hcard := Multiset.sum_count_eq_card (s := Finset.range p.length)
    (m := ((p.endings b).map Ending.index : List Nat)) ?_
  · rw [Multiset.coe_card, List.length_map] at hcard
    rw [← hcard]
    refine Finset.sum_congr rfl fun i _ => ?_
    rw [Multiset.coe_count, List.count, List.countP_map]
    exact List.countP_congr fun e _ => by simp
  · intro i hi
    obtain ⟨e, he, rfl⟩ := List.mem_map.1 (Multiset.mem_coe.1 hi)
    exact Finset.mem_range.2 (ending_of_mem he).1

end Program

namespace Action

variable {p : Program} {t : Tally} {b b' : Bench}

/-- The books of a run: what it reaches, what it counts and what errors it reports. -/
theorem run_books (h : run p b = .ok t b') :
    t.executed = (p.endings b).countP Ending.executed ∧
      t.skipped = (p.endings b).countP (!·.executed) ∧
      (∀ i < p.length, (p.endings b).countP (·.index = i) = p.times i) ∧
      b.Reports b' ((p.endings b).filterMap Ending.notice?) := by
  obtain ⟨c, hvisits, rfl, rfl⟩ := run_eq_ok.1 h
  rw [← Program.passages_visits] at hvisits
  have hbooks := visitAll_books (fun s hs => (Program.fits_of_mem_passages hs).2) hvisits
  have hstarted : (b.started p).tally = {} := (b.started_spared p).tally
  have hstart := b.started_reports p
  have hend : c.Reports (c.finished.noted (.runFinished c.finished.tally)) [] :=
    c.finished_reports.trans (Bench.noted_mild (by simp [Notice.level]) c.finished)
  refine ⟨?_, ?_, fun i hi => ?_, ?_⟩
  · rw [c.finished_spared.tally, hbooks.executed, hstarted]
    exact Nat.zero_add _
  · rw [c.finished_spared.tally, hbooks.skipped, hstarted]
    exact Nat.zero_add _
  · have hpassages := Program.countP_passages (f := Visit.counts) (fun _ _ => rfl) (fun _ _ => rfl) hi
      le_rfl
    rw [List.take_length] at hpassages
    exact (countP_endings hvisits i).trans hpassages
  · have hreports := (hstart.trans hbooks.reports).trans hend
    rw [List.append_nil] at hreports
    exact hreports

/-- What a run comes to, line by line. -/
structure Accounts (p : Program) (b : Bench) (t : Tally) (b' : Bench) : Prop where
  visited : runFront p p.length = visitAll (p.visits p.length)
  /-- Each line is reached as often as the product over the later replays says, -/
  reached : ∀ i < p.length, (p.visits p.length).countP (·.reaches i) = p.times i
  /-- and each time it ends as executed or as skipped. -/
  ended : ∀ i < p.length, (p.endings b).countP (·.index = i) = p.times i
  lines : ∀ e ∈ p.endings b, p[e.index]? = some e.line
  /-- A line that is no command is skipped every time. -/
  unparseable : ∀ i l why, p[i]? = some l → l.command = .error why →
    (p.endings b).filter (·.index = i) = List.replicate (p.times i) ⟨i, l, some (.line why)⟩
  /-- A replay is executed every time. -/
  replays : ∀ i l cycles, p[i]? = some l → l.command = .ok (.replay cycles) →
    (p.endings b).filter (·.index = i) = List.replicate (p.times i) ⟨i, l, none⟩
  executed : t.executed = (p.endings b).countP Ending.executed
  skipped : t.skipped = (p.endings b).countP (!·.executed)
  total : t.executed + t.skipped = ∑ i ∈ Finset.range p.length, p.times i
  /-- The errors in the log are one for each skipped line, in order, with its index and text. -/
  errors : b.Reports b' ((p.endings b).filterMap Ending.notice?)

/-- The accounts hold for every run that completes, whatever the bench. -/
theorem run_accounts (h : run p b = .ok t b') : Accounts p b t b' := by
  obtain ⟨hexecuted, hskipped, hended, hreports⟩ := run_books h
  have hlt {i : Nat} {l : ProgramLine} (hl : p[i]? = some l) : i < p.length :=
    (List.getElem?_eq_some_iff.1 hl).1
  have hlength := List.length_eq_countP_add_countP Ending.executed (l := p.endings b)
  have htotal : (p.endings b).length = ∑ i ∈ Finset.range p.length, p.times i := by
    rw [Program.length_endings]
    exact Finset.sum_congr rfl fun i hi => hended i (Finset.mem_range.1 hi)
  constructor
  case visited => exact runFront_eq p p.length
  case reached => exact fun i hi => Program.countP_reaches hi
  case ended => exact hended
  case lines => exact fun e he => (Program.ending_of_mem he).2.1
  case unparseable =>
    intro i l why hl hcommand
    refine Program.filter_endings_eq hl (hended i (hlt hl)) fun e he heq => ?_
    subst heq
    exact (Program.ending_of_mem he).2.2.1 why hcommand
  case replays =>
    intro i l cycles hl hcommand
    refine Program.filter_endings_eq hl (hended i (hlt hl)) fun e he heq => ?_
    subst heq
    exact (Program.ending_of_mem he).2.2.2 (by simp [ProgramLine.cycles?, hcommand])
  case executed => exact hexecuted
  case skipped => exact hskipped
  case total =>
    rw [hexecuted, hskipped, ← htotal]
    simpa using hlength.symm
  case errors => exact hreports

/-- The line that is no command is reached six times, three for each of two. -/
theorem nestedReplays_accounts : ∃ t b', run nestedReplays plainBench = .ok t b' ∧
    t.executed + t.skipped = 15 ∧
    (nestedReplays.endings plainBench).countP (·.index = 1) = 6 ∧
    plainBench.Reports b' ((nestedReplays.endings plainBench).filterMap Ending.notice?) := by
  have hcompletes : (run nestedReplays).completes plainBench := by decide +kernel
  obtain ⟨t, b', h⟩ := exists_of_completes hcompletes
  have haccounts := run_accounts h
  have htimes : nestedReplays.times 1 = 6 := by decide +kernel
  have htotal : ∑ i ∈ Finset.range nestedReplays.length, nestedReplays.times i = 15 := by
    decide +kernel
  exact ⟨t, b', h, haccounts.total.trans htotal,
    (haccounts.ended 1 (by decide +kernel)).trans htimes, haccounts.errors⟩

end Action

end LoadBench
