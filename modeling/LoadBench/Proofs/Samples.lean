import LoadBench.Proofs.Visits

/-!
# Accounting for samples

Requests are posted by moves, wait in a mailbox with one slot, and become samples when the sampling
gets a turn. Whatever the turns, the books balance: each request is served, overwritten or still
pending, the samples are those of the requests that were served, in order, and the last request is
never lost.
-/

namespace LoadBench

def Sample.request (s : Sample) : Request := ⟨s.index, s.position⟩

namespace Bench

variable {keeps : Bool} {b b' : Bench}

/-- The requests that were answered or still can be. -/
def surviving (b : Bench) : List Request :=
  b.sampler.samples.toList.map Sample.request ++ b.mailbox.pending.toList

/-- The books of a bench on which only the sampling takes requests; `keeps` says whether its samples
are collected. -/
structure Accounted (keeps : Bool) (b : Bench) : Prop where
  exclusive : ∀ n o t, t ∈ b.schedule n o → t = .serve
  sink : b.sampler.sink.keeps = keeps
  published : b.mailbox.published = b.requests.size
  taken : b.mailbox.taken = b.sampler.delivered
  balance : b.mailbox.published =
    b.mailbox.overwritten + b.mailbox.taken + b.mailbox.pending.toList.length
  order : keeps → b.surviving.Sublist b.requests.toList
  last : keeps → b.surviving.getLast? = b.requests.toList.getLast?

/-- Only schedule, sampling, mailbox and requests have to do with the books. -/
theorem Accounted.of_same (h : b.Accounted keeps) (hschedule : b'.schedule = b.schedule)
    (hsampler : b'.sampler = b.sampler) (hmailbox : b'.mailbox = b.mailbox)
    (hrequests : b'.requests = b.requests) : b'.Accounted keeps := by
  obtain ⟨hexclusive, hkeeps, hpublished, htaken, hbalance, hsurviving, hlast⟩ := h
  constructor
  · rwa [hschedule]
  · rwa [hsampler]
  · rwa [hmailbox, hrequests]
  · rwa [hmailbox, hsampler]
  · rwa [hmailbox]
  · rwa [Bench.surviving, hsampler, hmailbox, hrequests]
  · rwa [Bench.surviving, hsampler, hmailbox, hrequests]

/-- A turn that finds a request makes it a sample. -/
theorem served_eq {r : Request} (h : b.mailbox.pending = some r) :
    ∃ s cell log, s.request = r ∧ b.served = { b with
      mailbox := b.mailbox.take
      cell
      log
      sampler := { b.sampler with
        delivered := b.sampler.delivered + 1
        samples := if b.sampler.sink.keeps then b.sampler.samples.push s else b.sampler.samples } } := by
  simp only [served, h, delivered]
  by_cases hreports : b.sampler.sink.reports
  · simp only [hreports, if_true]
    exact ⟨_, _, _, rfl, rfl⟩
  · simp only [hreports]
    exact ⟨_, _, _, rfl, rfl⟩

theorem served_of_pending_eq_none (h : b.mailbox.pending = none) : b.served = b := by
  simp [served, h]

/-- Serving a request keeps the books. -/
theorem Accounted.served (h : b.Accounted keeps) : b.served.Accounted keeps := by
  cases hpending : b.mailbox.pending with
  | none => rwa [served_of_pending_eq_none hpending]
  | some r =>
    obtain ⟨s, cell, log, hs, heq⟩ := served_eq hpending
    obtain ⟨hexclusive, hkeeps, hpublished, htaken, hbalance, hsurviving, hlast⟩ := h
    rw [hpending] at hbalance
    -- the request moves from the slot to the samples, so that what survives stays the same
    have hsame (hk : keeps) : b.served.surviving = b.surviving := by
      rw [heq, Bench.surviving, Bench.surviving, hkeeps, if_pos hk, hpending]
      simp [Mailbox.take, hs]
    have hrequests : b.served.requests = b.requests := by rw [heq]
    constructor
    · rw [heq]
      exact hexclusive
    · rw [heq]
      exact hkeeps
    · rw [heq]
      exact hpublished
    · rw [heq]
      simp [Mailbox.take, hpending, htaken]
    · rw [heq]
      simp only [Mailbox.take, hpending, Option.toList_some, List.length_singleton,
        Option.isSome_some, if_true, Option.toList_none, List.length_nil] at hbalance ⊢
      omega
    · intro hk
      rw [hsame hk, hrequests]
      exact hsurviving hk
    · intro hk
      rw [hsame hk, hrequests]
      exact hlast hk

theorem Accounted.afterTurns {ts : List Turn} (hts : ∀ t ∈ ts, t = .serve)
    (h : b.Accounted keeps) : (ts.foldl afterTurn b).Accounted keeps := by
  induction ts generalizing b with
  | nil => exact h
  | cons t ts ih =>
    have ht : t = .serve := hts t List.mem_cons_self
    subst ht
    exact ih (fun t' ht' => hts t' (List.mem_cons_of_mem _ ht')) h.served

theorem Accounted.afterOccasion (h : b.Accounted keeps) (o : Occasion) :
    (b.afterOccasion o).Accounted keeps := by
  have hcounted : Accounted keeps { b with occasions := b.occasions + 1 } :=
    h.of_same rfl rfl rfl rfl
  exact hcounted.afterTurns (h.exclusive b.occasions o)

theorem posted_eq (b : Bench) (r : Request) : ∃ log, b.posted r = { b with
    mailbox := b.mailbox.publish r
    requests := b.requests.push r
    log } := by
  cases h : b.mailbox.pending with
  | none => exact ⟨b.log, by simp [posted, h]⟩
  | some old => exact ⟨_, by simp [posted, h, noted]; rfl⟩

/-- A new request is counted, and pushes out one that is pending. -/
theorem Accounted.posted (h : b.Accounted keeps) (r : Request) : (b.posted r).Accounted keeps := by
  obtain ⟨log, heq⟩ := posted_eq b r
  obtain ⟨hexclusive, hkeeps, hpublished, htaken, hbalance, hsurviving, hlast⟩ := h
  rw [heq]
  constructor
  · exact hexclusive
  · exact hkeeps
  · simp [Mailbox.publish, hpublished]
  · exact htaken
  · cases hpending : b.mailbox.pending with
    | none =>
      simp only [Mailbox.publish, hpending, Option.toList_none, Option.toList_some,
        List.length_nil, List.length_singleton, Option.isSome_none, Bool.false_eq_true,
        if_false] at hbalance ⊢
      omega
    | some old =>
      simp only [Mailbox.publish, hpending, Option.toList_some, List.length_singleton,
        Option.isSome_some, if_true] at hbalance ⊢
      omega
  · intro hk
    have hfront : (b.sampler.samples.toList.map Sample.request).Sublist b.requests.toList :=
      (List.sublist_append_left _ _).trans (hsurviving hk)
    simpa [Bench.surviving, Mailbox.publish] using hfront.append_right [r]
  · intro hk
    simp [Bench.surviving, Mailbox.publish]

end Bench

/-- Whatever a command does, the books stay in order. -/
theorem Effect.apply_accounted (e : Effect) {keeps : Bool} {b : Bench} (h : b.Accounted keeps) :
    (e.apply b).Accounted keeps := by
  cases e with
  | occasion o => exact h.afterOccasion o
  | post r => exact h.posted r
  | change changes =>
    simp only [apply]
    split
    · exact h.of_same rfl rfl rfl rfl
    · exact h
  | _ => exact h.of_same rfl rfl rfl rfl

/-! ## Requests of a move -/

def madeBy (c : Option Cadence) : Nat := (c.map Cadence.published).getD 0

namespace Cadence

/-- The step counts the request that it makes. -/
def Counting (step : Cadence → Nat → Option Nat × Cadence) : Prop :=
  ∀ c now, (step c now).2.published = c.published + (step c now).1.toList.length

theorem start_counting : Counting start := by
  intro c now
  unfold start
  split <;> rfl

theorem tick_counting : Counting tick := by
  intro c now
  unfold tick
  split <;> rfl

theorem complete_counting : Counting fun c _ => c.complete := by
  intro c now
  simp only [complete]
  split <;> rfl

theorem madeBy_ofPlan? (samples : Int) (plan : Plan) (now : Nat) :
    madeBy (ofPlan? samples plan now) = 0 := by
  unfold ofPlan?
  split <;> rfl

end Cadence

namespace Action

variable {b b' : Bench}

/-- A look at the cadence posts as many requests as the cadence says that it made. -/
theorem follow_requests {step : Cadence → Nat → Option Nat × Cadence}
    (hstep : Cadence.Counting step) {u : Single} {c : Option Cadence} {r : Bool × Option Cadence}
    (h : follow step u c b = .ok r b') :
    b'.requests.size + madeBy c = b.requests.size + madeBy r.2 := by
  cases c with
  | none =>
    cases h
    rfl
  | some c =>
    have hcount := hstep c b.clock.toNat
    rcases follow_ok h with ⟨c', hnone, rfl, rfl⟩ | ⟨i, c', hsome, rfl, rfl⟩
    · rw [hnone] at hcount
      simpa [madeBy] using hcount.symm
    · rw [hsome] at hcount
      obtain ⟨log, hposted⟩ :=
        Bench.posted_eq (b.afterOccasion .request) ⟨i, distanceOf b.actuator.position u⟩
      have hsame := (b.afterOccasion_spared .request).requests
      rw [hposted]
      simp only [Option.toList_some, List.length_singleton] at hcount
      simp only [hsame, Array.size_push, madeBy, Option.map_some, Option.getD_some]
      omega

theorem tick_requests (h : tick b = .ok () b') : b'.requests = b.requests := by
  have huses : Uses Effect.Sparing tick := tick_uses trivial (fun _ => trivial) trivial
  exact ((huses.reaches_of_ok h).spared fun _ he => he).requests

theorem travel_requests {u : Single} {allowance ticks : Nat} {c : Option Cadence}
    {r : Nat × Option Cadence} (h : travel u allowance c ticks b = .ok r b') :
    b'.requests.size + madeBy c = b.requests.size + madeBy r.2 := by
  refine (travel_ok (P := fun c' b'' => b''.requests.size + madeBy c = b.requests.size + madeBy c')
    ?_ (fun _ _ _ hc => hc) rfl h).1
  intro c₁ b₁ b₂ r₁ b₃ hb₁ htick hfollow
  have hmade := follow_requests Cadence.tick_counting hfollow
  rw [tick_requests htick] at hmade
  omega

/-- A move that completes tells how many requests it posted. -/
theorem move_requests {target feedrate : Single} {samples : Int} {u : Single} {r : MoveReport}
    (h : move target feedrate samples u b = .ok r b') :
    b'.requests.size = b.requests.size + r.samples := by
  rw [move_eq, get_bind_apply] at h
  obtain ⟨plan, c, hplan, hdrive⟩ := bind_eq_ok.1 h
  obtain ⟨_, rfl⟩ := accept_eq_ok.1 hplan
  obtain ⟨n, b₁, r₁, b₂, r₂, b₃, r₃, b₄, rfl, h₁, h₂, h₃, rfl, rfl⟩ := drive_ok hdrive
  have hstart := follow_requests Cadence.start_counting h₁
  have htravel := travel_requests h₂
  have hend := follow_requests Cadence.complete_counting h₃
  have haimed : (((c.noted n).afterOccasion .move).aimed plan).requests = c.requests :=
    ((c.noted n).afterOccasion_spared .move).requests
  rw [haimed, Cadence.madeBy_ofPlan?] at hstart
  have hmade : (r₃.2.map Cadence.published).getD 0 = madeBy r₃.2 := rfl
  simp only [hmade]
  omega

end Action

/-! ## Requests of a run -/

/-- The effect asks for a sample or counts samples asked for. -/
def Effect.Asks : Effect → Prop
  | .post _ | .countMove _ => True
  | _ => False

theorem Effect.apply_requests {e : Effect} (h : ¬ e.Asks) (b : Bench) :
    (e.apply b).requests = b.requests ∧ (e.apply b).tally.samples = b.tally.samples := by
  have htally : (e.apply b).tally = b.tally := by
    refine apply_tally ?_ b
    rintro samples rfl
    exact h trivial
  refine ⟨?_, congrArg Tally.samples htally⟩
  cases e with
  | occasion o => exact (b.afterOccasion_spared o).requests
  | post r => exact absurd trivial h
  | change changes =>
    simp only [apply]
    split <;> rfl
  | _ => rfl

def Bench.Balanced (b : Bench) : Prop := b.requests.size = b.tally.samples

theorem Bench.Reaches.balanced {K : Effect → Prop} (hK : ∀ e, K e → ¬ e.Asks) {b b' : Bench}
    (h : Reaches K b b') (hb : b.Balanced) : b'.Balanced := by
  refine h.invariant ?_ hb
  intro e he c hc
  obtain ⟨hrequests, hsamples⟩ := e.apply_requests (hK e he) c
  unfold Bench.Balanced
  rw [hrequests, hsamples]
  exact hc

namespace Action

variable {b b' : Bench}

/-- Only moves post requests, and each counts those that it posted. -/
theorem execute_balanced {c : Command} (h : execute c b = .ok () b') (hb : b.Balanced) :
    b'.Balanced := by
  cases c with
  | move target feedrate samples =>
    rw [execute, get_bind_apply] at h
    obtain ⟨report, c, hmove, hcount⟩ := bind_eq_ok.1 h
    have hrequests := move_requests hmove
    have htally : c.tally = b.tally := by
      refine ((move_uses _ _ _ _).reaches_of_ok hmove).frame (·.tally) fun e he c => ?_
      refine Effect.apply_tally ?_ c
      rintro n rfl
      exact he
    cases hcount
    have hsum : c.requests.size = c.tally.samples + report.samples := by
      rw [hrequests, htally, hb]
    exact hsum
  | _ =>
    refine ((execute_uses _).reaches_of_ok h).balanced ?_ hb
    intro e he
    cases e <;> simp_all [Command.Effects, Effect.Asks, Effect.Waiting, Effect.Announcing,
      Effect.CalibratingLoad, Effect.CalibratingDistance]

theorem execute_refused_balanced {c : Command} {why : Refusal}
    (h : execute c b = .error (.refused why) b') (hb : b.Balanced) : b'.Balanced := by
  have hspared := execute_refused_spares h
  unfold Bench.Balanced
  rw [hspared.requests, hspared.tally]
  exact hb

theorem visit_balanced {v : Visit} (h : visit v b = .ok () b') (hb : b.Balanced) :
    b'.Balanced :=
  visit_invariant (fun _ _ _ _ hc => hc) (fun _ _ _ => execute_balanced)
    (fun _ _ _ _ => execute_refused_balanced) h hb

theorem visit_accounted {keeps : Bool} {v : Visit} (h : visit v b = .ok () b')
    (hb : b.Accounted keeps) : b'.Accounted keeps := by
  refine visit_invariant ?_ ?_ ?_ h hb
  · intro c log executed skipped hc
    exact hc.of_same rfl rfl rfl rfl
  · intro command c c' hexecute hc
    have hreaches := (execute_uses command).reaches_of_ok hexecute
    exact hreaches.invariant (fun e _ _ hd => e.apply_accounted hd) hc
  · intro command why c c' hexecute hc
    have hreaches := (execute_uses command).reaches_of_error hexecute
    exact hreaches.invariant (fun e _ _ hd => e.apply_accounted hd) hc

end Action

namespace Bench

/-- Nothing was requested yet, and only the sampling takes requests. -/
structure Fresh (b : Bench) : Prop where
  exclusive : ∀ n o t, t ∈ b.schedule n o → t = .serve
  mailbox : b.mailbox = {}
  requests : b.requests = #[]
  delivered : b.sampler.delivered = 0
  samples : b.sampler.samples = #[]

variable {b : Bench}

theorem Fresh.accounted (h : b.Fresh) : b.Accounted b.sampler.sink.keeps := by
  have hsurviving : b.surviving = [] := by simp [surviving, h.samples, h.mailbox]
  constructor
  · exact h.exclusive
  · rfl
  · simp [h.mailbox, h.requests]
  · simp [h.mailbox, h.delivered]
  · simp [h.mailbox]
  · simp [hsurviving]
  · simp [hsurviving, h.requests]

theorem Accounted.started {keeps : Bool} (h : b.Accounted keeps) (p : Program) :
    (b.started p).Accounted keeps := by
  have hbefore : Accounted keeps { b.noted (.runStarted p.length p.errorCount) with tally := {} } :=
    h.of_same rfl rfl rfl rfl
  exact (hbefore.afterOccasion .enable).of_same rfl rfl rfl rfl

theorem Accounted.finished {keeps : Bool} (h : b.Accounted keeps) : b.finished.Accounted keeps :=
  (h.afterOccasion .disable).of_same rfl rfl rfl rfl

theorem Fresh.started_balanced (h : b.Fresh) (p : Program) : (b.started p).Balanced := by
  unfold Balanced
  rw [(b.started_spared p).requests, (b.started_spared p).tally, h.requests]
  rfl

theorem served_pending (b : Bench) : b.served.mailbox.pending = none := by
  cases hpending : b.mailbox.pending with
  | none => rw [served_of_pending_eq_none hpending, hpending]
  | some r =>
    obtain ⟨s, cell, log, _, heq⟩ := served_eq hpending
    rw [heq]
    rfl

theorem served_requests (b : Bench) : b.served.requests = b.requests := by
  cases hpending : b.mailbox.pending with
  | none => rw [served_of_pending_eq_none hpending]
  | some r =>
    obtain ⟨s, cell, log, _, heq⟩ := served_eq hpending
    rw [heq]

end Bench

namespace Action

variable {p : Program} {t : Tally} {b b' : Bench}

/-- What a run posts, whatever turns the sampling gets meanwhile, is what its tally says. -/
theorem run_requests (hb : b.Fresh) (h : run p b = .ok t b') : b'.requests.size = t.samples := by
  obtain ⟨c, hvisits, rfl, rfl⟩ := run_eq_ok.1 h
  have hbalanced := visitAll_invariant (fun _ _ _ => visit_balanced) hvisits (hb.started_balanced p)
  have hend : c.finished.requests.size = c.finished.tally.samples := by
    rw [c.finished_spared.requests, c.finished_spared.tally]
    exact hbalanced
  exact hend

theorem run_accounted (hb : b.Fresh) (h : run p b = .ok t b') :
    b'.Accounted b.sampler.sink.keeps := by
  obtain ⟨c, hvisits, _, rfl⟩ := run_eq_ok.1 h
  have hvisited := visitAll_invariant (fun _ _ _ => visit_accounted) hvisits (hb.accounted.started p)
  exact hvisited.finished.of_same rfl rfl rfl rfl

/-- After a run from a fresh bench, once the sampling is stopped, whatever turns it had: every
request of the tally was posted, each of them was delivered or overwritten, none is left for the
sampling to find, and the samples that were collected answer requests in the order in which these
were posted, the last one included. -/
theorem run_samples (hb : b.Fresh) (h : run p b = .ok t b') :
    let s := b'.samplingStopped
    s.requests = b'.requests ∧ s.requests.size = t.samples ∧ s.mailbox.published = t.samples ∧
      s.mailbox.published = s.sampler.delivered + s.mailbox.overwritten ∧
      s.mailbox.taken = s.sampler.delivered ∧ s.mailbox.pending = none ∧ s.served = s ∧
      (b.sampler.sink.keeps →
        (s.sampler.samples.toList.map Sample.request).Sublist s.requests.toList ∧
        (s.sampler.samples.toList.map Sample.request).getLast? = s.requests.toList.getLast?) := by
  intro s
  have haccounted : s.Accounted b.sampler.sink.keeps :=
    (run_accounted hb h).served.of_same rfl rfl rfl rfl
  have hpending : s.mailbox.pending = none := b'.served_pending
  have hrequests : s.requests = b'.requests := b'.served_requests
  have hsize : s.requests.size = t.samples := by rw [hrequests, run_requests hb h]
  have hpublished := haccounted.published
  have htaken := haccounted.taken
  have hbalance := haccounted.balance
  have horder := haccounted.order
  have hlast := haccounted.last
  rw [hpending, Option.toList_none, List.length_nil] at hbalance
  rw [Bench.surviving, hpending, Option.toList_none, List.append_nil] at horder hlast
  refine ⟨hrequests, hsize, by omega, by omega, htaken, hpending, ?_, ?_⟩
  · exact Bench.served_of_pending_eq_none hpending
  · intro hkeeps
    exact ⟨horder hkeeps, hlast hkeeps⟩

/-- A bench whose sampling gets a turn on every third occasion. -/
def attendedBench : Bench :=
  { plainBench with schedule := fun n _ => if n % 3 = 0 then [.serve] else [] }

def sampledReplay : Program :=
  [⟨"", .ok (.move 0.05 10 3)⟩, ⟨"", .ok (.move 1 0 3)⟩, ⟨"", .ok (.replay 1)⟩]

theorem sampledReplay_samples : ∃ t b', run sampledReplay attendedBench = .ok t b' ∧
    b'.samplingStopped.mailbox.published = t.samples ∧
    b'.samplingStopped.mailbox.published =
      b'.samplingStopped.sampler.delivered + b'.samplingStopped.mailbox.overwritten ∧
    (b'.samplingStopped.sampler.samples.toList.map Sample.request).Sublist b'.requests.toList := by
  have hfresh : attendedBench.Fresh := by
    refine ⟨?_, rfl, rfl, rfl, rfl⟩
    intro n o t ht
    simp only [attendedBench] at ht
    split at ht
    · exact List.mem_singleton.1 ht
    · cases ht
  have hcompletes : (run sampledReplay).completes attendedBench := by decide +kernel
  obtain ⟨t, b', h⟩ := exists_of_completes hcompletes
  obtain ⟨hrequests, _, hpublished, hbalance, _, _, _, hsamples⟩ := run_samples hfresh h
  rw [hrequests] at hsamples
  exact ⟨t, b', h, hpublished, hbalance, (hsamples rfl).1⟩

end Action

end LoadBench
