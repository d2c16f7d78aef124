import LoadBench.Proofs.Samples
import LoadBench.Proofs.Validity

/-!
# What a command touches

The bench falls into parts, and each command has a few of them as its own: a move posts requests and
moves, constants change what they give, a calibration asks the operator. Whatever a command comes to,
it keeps all other parts. The sampling goes on meanwhile and may take a request or read the cell; what
it takes and reads is told apart from what the command does.
-/

namespace LoadBench

/-! ## Readings of the sampling -/

namespace Bench

/-- The cell was read for samples that were delivered, and for nothing else. -/
def ReadForSamples (b b' : Bench) : Prop :=
  b'.sampler.readings = b.sampler.readings ∧ ∃ samples,
    b'.sampler.delivered = b.sampler.delivered + samples ∧
      b'.cell.reads = b.cell.reads + samples * b.sampler.readings

variable {b b' b'' : Bench}

theorem ReadForSamples.of_same (hsampler : b'.sampler = b.sampler)
    (hreads : b'.cell.reads = b.cell.reads) : b.ReadForSamples b' := by
  refine ⟨by rw [hsampler], 0, by rw [hsampler, Nat.add_zero], ?_⟩
  rw [hreads, Nat.zero_mul, Nat.add_zero]

theorem ReadForSamples.trans (h : b.ReadForSamples b') (h' : b'.ReadForSamples b'') :
    b.ReadForSamples b'' := by
  obtain ⟨hsame, m, hdelivered, hreads⟩ := h
  obtain ⟨hsame', n, hdelivered', hreads'⟩ := h'
  refine ⟨hsame'.trans hsame, m + n, ?_, ?_⟩
  · rw [hdelivered', hdelivered, Nat.add_assoc]
  · rw [hreads', hreads, hsame, Nat.add_mul, Nat.add_assoc]

/-- A sampler that serves requests changes only what sampling reads. -/
theorem served_reads (b : Bench) : b.ReadForSamples b.served := by
  cases hpending : b.mailbox.pending with
  | none =>
    rw [served_of_pending_eq_none hpending]
    exact .of_same rfl rfl
  | some r =>
    have hcell : (burstMean LoadCell.read b.sampler.readings b.cell).2.reads =
        b.cell.reads + 1 * b.sampler.readings := by
      rw [burstMean_cell, Nat.one_mul]
    simp only [served, hpending, delivered]
    by_cases hreports : b.sampler.sink.reports
    · simp only [hreports, if_true]
      exact ⟨rfl, 1, rfl, hcell⟩
    · simp only [hreports]
      exact ⟨rfl, 1, rfl, hcell⟩

theorem afterTurn_reads (b : Bench) (t : Turn) : b.ReadForSamples (b.afterTurn t) := by
  cases t with
  | discard => exact .of_same rfl rfl
  | serve => exact b.served_reads

theorem afterTurns_reads (ts : List Turn) (b : Bench) : b.ReadForSamples (ts.foldl afterTurn b) := by
  induction ts generalizing b with
  | nil => exact .of_same rfl rfl
  | cons t ts ih => exact (b.afterTurn_reads t).trans (ih _)

theorem afterOccasion_reads (b : Bench) (o : Occasion) : b.ReadForSamples (b.afterOccasion o) :=
  ReadForSamples.trans (.of_same rfl rfl) (afterTurns_reads _ _)

end Bench

/-! ## Parts of the bench -/

/-- What a command may have as its own. -/
inductive Part where
  /-- The requests, and the mailbox that they are posted to. -/
  | requests
  /-- The counts of moves and of their samples. -/
  | moveCounts
  /-- The actuator and the clock. -/
  | motion
  | position
  | stepsPerUnit
  /-- The scale divider, in force and in the amplifier. -/
  | divider
  /-- The offset, in force and in the amplifier. -/
  | offset
  | operator
  /-- The readings of the load cell. -/
  | readings
  | delays
  deriving DecidableEq, Repr

/-- The part is as it was, but for what the sampling took from the mailbox or read. -/
def Part.Kept : Part → Bench → Bench → Prop
  | .requests, b, b' => b'.requests = b.requests ∧
      (b'.mailbox = b.mailbox ∨ b'.mailbox = b.mailbox.take) ∧
      (b.Unattended → b'.mailbox = b.mailbox)
  | .moveCounts, b, b' => b'.tally = b.tally
  | .motion, b, b' => b'.actuator = b.actuator ∧ b'.clock = b.clock
  | .position, b, b' => b'.position = b.position
  | .stepsPerUnit, b, b' => b'.calibration.stepsPerUnit = b.calibration.stepsPerUnit
  | .divider, b, b' => b'.calibration.scaleDivider = b.calibration.scaleDivider ∧
      b'.cell.driverScale = b.cell.driverScale
  | .offset, b, b' => b'.calibration.offset = b.calibration.offset ∧
      b'.cell.driverOffset = b.cell.driverOffset
  | .operator, b, b' => b'.operator = b.operator
  | .readings, b, b' => b.ReadForSamples b' ∧ (b.Unattended → b'.cell.reads = b.cell.reads)
  | .delays, b, b' => b'.delays = b.delays

def Command.parts : Command → List Part
  | .move .. => [.requests, .moveCounts, .motion, .position]
  | .wait _ => [.delays]
  | .constants given =>
    (if given.stepsPerUnit.isSome then [.stepsPerUnit, .position] else []) ++
      (if given.scaleDivider.isSome then [.divider] else []) ++
      (if given.offset.isSome then [.offset] else [])
  | .calibrateLoad _ => [.divider, .offset, .operator, .readings, .delays]
  | .calibrateDistance .. => [.motion, .position, .stepsPerUnit, .operator, .delays]
  | .replay _ => []

namespace Part

variable {part : Part} {b b' b'' : Bench}

theorem Kept.refl (part : Part) (b : Bench) : part.Kept b b := by
  cases part with
  | requests => exact ⟨rfl, .inl rfl, fun _ => rfl⟩
  | readings => exact ⟨.of_same rfl rfl, fun _ => rfl⟩
  | motion | divider | offset => exact ⟨rfl, rfl⟩
  | _ => rfl

/-- What is kept twice in a row is kept, when the turns of the sampler are the same. -/
theorem Kept.trans (h : part.Kept b b') (hschedule : b'.schedule = b.schedule)
    (h' : part.Kept b' b'') : part.Kept b b'' := by
  have hidle : b.Unattended → b'.Unattended := fun h n o => by rw [hschedule, h n o]
  cases part with
  | requests =>
    obtain ⟨hrequests, hmailbox, hsame⟩ := h
    obtain ⟨hrequests', hmailbox', hsame'⟩ := h'
    refine ⟨hrequests'.trans hrequests, ?_, fun hb => (hsame' (hidle hb)).trans (hsame hb)⟩
    rcases hmailbox' with heq' | heq' <;> rcases hmailbox with heq | heq <;>
      simp [heq', heq]
  | readings => exact ⟨h.1.trans h'.1, fun hb => (h'.2 (hidle hb)).trans (h.2 hb)⟩
  | motion | divider | offset => exact ⟨h'.1.trans h.1, h'.2.trans h.2⟩
  | _ => exact Eq.trans h' h

end Part

/-! ## Parts of effects -/

def Calibration.Change.part : Change → Part
  | .stepsPerUnit _ => .stepsPerUnit
  | .scaleDivider _ => .divider
  | .offset _ => .offset

namespace Effect

def parts : Effect → List Part
  | .post _ => [.requests]
  | .countMove _ => [.moveCounts]
  | .tick | .aim _ => [.motion]
  | .arrive _ | .rebase _ => [.position]
  | .change changes => changes.map Calibration.Change.part
  | .driverScale _ => [.divider]
  | .driverOffset _ => [.offset]
  | .poll => [.operator]
  | .read => [.readings]
  | .pause _ => [.delays]
  | .note _ | .occasion _ | .spend | .refuse _ => []

end Effect

theorem Bench.afterOccasion_kept (part : Part) (b : Bench) (o : Occasion) :
    part.Kept b (b.afterOccasion o) := by
  have hspared := b.afterOccasion_spared o
  obtain ⟨mailbox, reads, sampler, log, occasions, heq, _⟩ := b.afterOccasion_attended o
  cases part with
  | requests => exact ⟨hspared.requests, hspared.mailbox, hspared.unattended⟩
  | readings =>
    refine ⟨b.afterOccasion_reads o, fun hidle => ?_⟩
    rw [afterOccasion_of_unattended hidle]
  | motion | divider | offset => rw [heq]; exact ⟨rfl, rfl⟩
  | _ => rw [heq]; rfl

theorem Bench.posted_kept {part : Part} (h : part ≠ .requests) (b : Bench) (r : Request) :
    part.Kept b (b.posted r) := by
  obtain ⟨log, heq⟩ := Bench.posted_eq b r
  rw [heq]
  cases part with
  | requests => exact absurd rfl h
  | readings => exact ⟨.of_same rfl rfl, fun _ => rfl⟩
  | motion | divider | offset => exact ⟨rfl, rfl⟩
  | _ => rfl

/-- A change sets its own constant and keeps every other part. -/
theorem Calibration.Change.set_kept {part : Part} {change : Change} (h : part ≠ change.part)
    (b : Bench) : part.Kept b { b with calibration := change.set b.calibration } := by
  cases part with
  | requests => exact ⟨rfl, .inl rfl, fun _ => rfl⟩
  | readings => exact ⟨.of_same rfl rfl, fun _ => rfl⟩
  | motion => exact ⟨rfl, rfl⟩
  | stepsPerUnit =>
    cases change with
    | stepsPerUnit => exact absurd rfl h
    | scaleDivider | offset => rfl
  | divider =>
    cases change with
    | scaleDivider => exact absurd rfl h
    | stepsPerUnit | offset => exact ⟨rfl, rfl⟩
  | offset =>
    cases change with
    | offset => exact absurd rfl h
    | stepsPerUnit | scaleDivider => exact ⟨rfl, rfl⟩
  | _ => rfl

/-- Changes set the constants of their own parts only. -/
theorem Calibration.foldl_set_kept {part : Part} {changes : List Change}
    (h : part ∉ changes.map Change.part) (b : Bench) :
    part.Kept b { b with calibration := changes.foldl Change.set b.calibration } := by
  induction changes generalizing b with
  | nil => exact .refl part b
  | cons change changes ih =>
    simp only [List.map_cons, List.mem_cons, not_or] at h
    obtain ⟨hfirst, hlater⟩ := h
    have hset := Change.set_kept hfirst b
    exact hset.trans rfl (ih hlater _)

namespace Effect

theorem apply_schedule (e : Effect) (b : Bench) : (e.apply b).schedule = b.schedule := by
  cases e with
  | occasion o => exact (b.afterOccasion_spared o).schedule
  | post r =>
    obtain ⟨log, heq⟩ := Bench.posted_eq b r
    rw [apply, heq]
  | change changes =>
    simp only [apply]
    split <;> rfl
  | _ => rfl

/-- What an effect does not touch it keeps. -/
theorem apply_kept {e : Effect} {part : Part} (h : part ∉ e.parts) (b : Bench) :
    part.Kept b (e.apply b) := by
  cases e with
  | occasion o => exact b.afterOccasion_kept part o
  | post r => exact b.posted_kept (fun hpart => h (by simp [parts, hpart])) r
  | change changes =>
    simp only [apply]
    split
    · next c hc =>
      obtain ⟨_, rfl⟩ := Calibration.update_eq_ok.1 hc
      exact Calibration.foldl_set_kept h b
    · exact .refl part b
  | _ =>
    cases part with
    | requests => first | exact absurd (List.mem_singleton_self _) h | exact ⟨rfl, .inl rfl, fun _ => rfl⟩
    | readings => first | exact absurd (List.mem_singleton_self _) h | exact ⟨.of_same rfl rfl, fun _ => rfl⟩
    | motion | divider | offset => first | exact absurd (List.mem_singleton_self _) h | exact ⟨rfl, rfl⟩
    | _ => first | exact absurd (List.mem_singleton_self _) h | rfl

end Effect

theorem Bench.Reaches.kept {K : Effect → Prop} {part : Part} (hK : ∀ e, K e → part ∉ e.parts)
    {b b' : Bench} (h : Reaches K b b') : part.Kept b b' := by
  refine (h.invariant (P := fun c => c.schedule = b.schedule ∧ part.Kept b c) ?_
    ⟨rfl, .refl part b⟩).2
  rintro e he c ⟨hschedule, hkept⟩
  exact ⟨(e.apply_schedule c).trans hschedule, hkept.trans hschedule (Effect.apply_kept (hK e he) c)⟩

/-- The changes of a command belong to the constants that it gives. -/
theorem Constants.part_mem {given : Constants} {part : Part}
    (h : part ∈ given.changes.map Calibration.Change.part) :
    part ∈ (Command.constants given).parts := by
  obtain ⟨u, d, o⟩ := given
  cases u <;> cases d <;> cases o <;>
    simp [changes, Command.parts, Calibration.Change.part] at h ⊢ <;> grind

/-- The effects of a command touch its own parts only. -/
theorem Command.part_mem {c : Command} {e : Effect} {part : Part} (he : c.Effects e)
    (h : part ∈ e.parts) : part ∈ c.parts := by
  cases c with
  | move target feedrate samples =>
    rcases he with he | ⟨n, rfl⟩
    · cases e <;> simp_all [Effect.Moving, Effect.Driving, Effect.parts, parts]
    · simp_all [Effect.parts, parts]
  | wait seconds => cases e <;> simp_all [Effects, Effect.Waiting, Effect.parts, parts]
  | constants given =>
    rcases he with he | rfl | rfl | ⟨why, rfl⟩
    · cases e <;> simp_all [Effect.Announcing, Effect.parts, parts]
    · cases h
    · exact Constants.part_mem h
    · cases h
  | calibrateLoad reference =>
    rcases he with he | ⟨why, rfl⟩
    · cases e with
      | change changes =>
        obtain ⟨divider, offset, rfl⟩ := he
        simp only [Effect.parts, List.map_cons, List.map_nil, Calibration.Change.part] at h
        exact List.mem_append_left [.operator, .readings, .delays] h
      | _ => simp_all [Effect.CalibratingLoad, Effect.parts, parts]
    · cases h
  | calibrateDistance target feedrate =>
    cases e with
    | change changes =>
      obtain ⟨u, rfl⟩ := he
      simp_all [Effect.parts, parts, Calibration.Change.part]
    | _ => simp_all [Effects, Effect.CalibratingDistance, Effect.parts, parts]
  | replay cycles => exact he.elim

/-- Whatever a command comes to, completed, refused or stopped short, it keeps every part of the
bench that is not its own. -/
theorem Command.keeps (c : Command) (b : Bench) {part : Part} (h : part ∉ c.parts) :
    part.Kept b ((Operation.command c).after b) :=
  ((Operation.command c).after_reaches b).kept fun _ he hmem => h (part_mem he hmem)

/-- A calibration that is refused after its move leaves the actuator elsewhere, with no request
posted and no reading taken. -/
theorem Command.overshot_calibration_keeps :
    let b := Action.overshotBench
    let b' := (Operation.command (.calibrateDistance 0.05 10)).after b
    b'.actuator.position ≠ b.actuator.position ∧
      b'.requests = b.requests ∧ b'.tally = b.tally ∧ b'.cell.reads = b.cell.reads := by
  intro b b'
  have hrequests : Part.requests.Kept b b' := keeps _ b (by decide)
  have htally : Part.moveCounts.Kept b b' := keeps _ b (by decide)
  have hreadings : Part.readings.Kept b b' := keeps _ b (by decide)
  exact ⟨by decide +kernel, hrequests.1, htally, hreadings.2 fun _ _ => rfl⟩

end LoadBench
