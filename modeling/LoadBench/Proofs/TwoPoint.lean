import LoadBench.Proofs.Footprint
import LoadBench.Proofs.Hearing
import LoadBench.Proofs.LoadPhases
import Mathlib.Algebra.Order.Ring.Int

/-!
# A load calibration from end to end

A calibration hears a reply, reads the empty cell, hears another reply, reads the loaded cell, and
then the constants are settled by two means and the reference load. The cell of the bench shows what
it weighs; nothing of this depends on it, so the sensor here shows what it likes at each reading.
-/

namespace LoadBench

/-! ## Any sensor -/

namespace Action

/-- One reading of a sensor that shows a number for the cell as it is: for the load on it, and for
how often it was read before. -/
def readAs (shows : LoadCell → Int) : Action Int := do
  occasion .reading
  modifyGet fun b => (shows b.cell, { b with cell := (LoadCell.read.run b.cell).2 })

def meanAs (shows : LoadCell → Int) : Action Single := do
  let p := (← get).procedure
  pausedMean (readAs shows) (delay p.spacingMillis) p.readings

end Action

namespace LoadCalibration

open LoadBench.Action

def stepAs (shows : LoadCell → Int) (m : LoadCalibration) :
    Action (Except Refusal LoadCalibration) :=
  match m.phase with
  | .measureZero => do
    let mean ← meanAs shows
    note (.zeroReading mean)
    return .ok { m with phase := .awaitLoad, zeroMean := mean }
  | .measureLoad => do
    let mean ← meanAs shows
    note (.loadedReading mean)
    return .ok { m with phase := .compute, loadMean := mean }
  | _ => m.step

/-- At most `steps` steps with a sensor, until the calibration is done or refused. -/
def stepsAs (shows : LoadCell → Int) :
    (steps : Nat) → LoadCalibration → Action (LoadCalibration × Option Refusal)
  | 0, m => return (m, none)
  | n + 1, m => do
    match ← m.stepAs shows with
    | .ok m => if m.phase = .done then return (m, none) else stepsAs shows n m
    | .error e => return (m, some e)

def runAs (shows : LoadCell → Int) (m : LoadCalibration) :
    Action (LoadCalibration × Option Refusal) := stepsAs shows 7 m

def completeAs (shows : LoadCell → Int) (m : LoadCalibration) :
    Action (LoadCalibration × Except Refusal Calibration) := do
  let (m, refusal) ← runAs shows m
  return (m, ← answer refusal)

theorem stepAs_raw (m : LoadCalibration) : m.stepAs LoadCell.raw = m.step := by
  unfold stepAs step
  cases m.phase <;> rfl

theorem stepsAs_raw (n : Nat) (m : LoadCalibration) : stepsAs LoadCell.raw n m = steps n m := by
  induction n generalizing m with
  | zero => rfl
  | succ n ih =>
    rw [stepsAs, steps, stepAs_raw]
    refine bind_congr fun r => ?_
    cases r with
    | ok m' => simp only [ih]
    | error e => rfl

end LoadCalibration

/-! ## A group of readings -/

/-- Readings in order, with one delay between each two. -/
inductive Weighed (shows : LoadCell → Int) (millis : Nat) : Bench → List Int → Bench → Prop where
  | last {b b' : Bench} {x : Int} : Action.readAs shows b = .ok x b' → Weighed shows millis b [x] b'
  | cons {b b₁ b₂ b' : Bench} {x : Int} {xs : List Int} : Action.readAs shows b = .ok x b₁ →
    Action.delay millis b₁ = .ok () b₂ → Weighed shows millis b₂ xs b' →
    Weighed shows millis b (x :: xs) b'

variable {shows : LoadCell → Int} {b b₁ b' : Bench} {x : Int}

/-- The cell was read so often, and besides only for samples that were delivered. -/
def Bench.ReadTimes (n : Nat) (b b' : Bench) : Prop :=
  b'.sampler.readings = b.sampler.readings ∧ ∃ samples,
    b'.sampler.delivered = b.sampler.delivered + samples ∧
      b'.cell.reads = b.cell.reads + n + samples * b.sampler.readings

theorem Bench.ReadTimes.trans {m n : Nat} (h : Bench.ReadTimes m b b₁)
    (h' : Bench.ReadTimes n b₁ b') : Bench.ReadTimes (m + n) b b' := by
  obtain ⟨hsame, k, hdelivered, hreads⟩ := h
  obtain ⟨hsame', k', hdelivered', hreads'⟩ := h'
  refine ⟨hsame'.trans hsame, k + k', by omega, ?_⟩
  rw [hreads', hreads, hsame, Nat.add_mul]
  omega

namespace Action

theorem readAs_ok (h : readAs shows b = .ok x b') :
    b' = Effect.read.apply (b.afterOccasion .reading) := by
  cases h
  rfl

theorem readAs_completes (shows : LoadCell → Int) (b : Bench) :
    ∃ x b', readAs shows b = .ok x b' := ⟨_, _, rfl⟩

theorem readAs_idled (h : readAs shows b = .ok x b') : b.Idled b' := by
  have hidled := b.afterOccasion_idled .reading
  rw [readAs_ok h]
  exact ⟨hidled.operator, hidled.delays, hidled.delaysLeft⟩

theorem readAs_reads (h : readAs shows b = .ok x b') : Bench.ReadTimes 1 b b' := by
  obtain ⟨hsame, samples, hdelivered, hreads⟩ := b.afterOccasion_reads .reading
  rw [readAs_ok h]
  refine ⟨hsame, samples, hdelivered, ?_⟩
  change (b.afterOccasion .reading).cell.reads + 1 = _
  omega

theorem readAs_reaches (h : readAs shows b = .ok x b') : b.Reaches Effect.Measuring b' := by
  rw [readAs_ok h]
  exact (Bench.Reaches.refl.step (e := .occasion .reading) trivial).step (e := .read) trivial

end Action

/-- No reading is made for a wait. -/
theorem Bench.ReadTimes.of_waiting (h : b.Reaches Effect.Waiting b') : Bench.ReadTimes 0 b b' := by
  have hkept : Part.readings.Kept b b' := h.kept fun e he => by
    cases e <;> simp_all [Effect.Waiting, Effect.parts]
  exact hkept.1

namespace Weighed

open LoadBench.Action

variable {millis : Nat} {xs : List Int}

theorem reaches (h : Weighed shows millis b xs b') : b.Reaches Effect.Measuring b' := by
  induction h with
  | last hx => exact readAs_reaches hx
  | cons hx hpause _ ih =>
    have hdelay := (delay_uses (K := Effect.Measuring) trivial trivial).reaches_of_ok hpause
    exact (readAs_reaches hx).trans (hdelay.trans ih)

theorem length_pos (h : Weighed shows millis b xs b') : 0 < xs.length := by
  cases h <;> simp

/-- What a group of readings does to the operator and to the delays. -/
theorem idled (h : Weighed shows millis b xs b') : b'.operator = b.operator ∧
    b'.delays.toList = b.delays.toList ++ List.replicate (xs.length - 1) millis ∧
    b'.delaysLeft + (xs.length - 1) = b.delaysLeft := by
  induction h with
  | last hx =>
    have hidled := readAs_idled hx
    simp [hidled.operator, hidled.delays, hidled.delaysLeft]
  | @cons b b₁ b₂ b' x xs hx hpause hxs ih =>
    have hidled := readAs_idled hx
    obtain ⟨hoperator, hpushed, hleft⟩ := delay_ok hpause
    obtain ⟨hoperator', hpauses, hleft'⟩ := ih
    rw [hidled.operator] at hoperator
    rw [hidled.delays] at hpushed
    rw [hidled.delaysLeft] at hleft
    obtain ⟨k, hk⟩ : ∃ k, xs.length = k + 1 := ⟨xs.length - 1, by have := hxs.length_pos; omega⟩
    rw [hk, Nat.add_sub_cancel] at hpauses hleft'
    rw [List.length_cons, hk, Nat.add_sub_cancel]
    refine ⟨hoperator'.trans hoperator, ?_, by omega⟩
    rw [hpauses, hpushed, Array.toList_push, List.append_assoc, List.replicate_succ,
      List.singleton_append]

/-- The cell is read once for each reading of the group. -/
theorem reads (h : Weighed shows millis b xs b') : Bench.ReadTimes xs.length b b' := by
  induction h with
  | last hx => exact readAs_reads hx
  | cons hx hpause _ ih =>
    have hdelay := (delay_uses (K := Effect.Waiting) trivial trivial).reaches_of_ok hpause
    have hnone := (Bench.ReadTimes.of_waiting hdelay).trans ih
    have hall := (readAs_reads hx).trans hnone
    rwa [Nat.zero_add, Nat.add_comm] at hall

end Weighed

namespace Action

/-- Readings with a pause before each, after a first reading. -/
theorem sumPaused_weighs (millis : Nat) {n : Nat} (h : readAs shows b = .ok x b₁)
    (hleft : n ≤ b₁.delaysLeft) (sum : Int) : ∃ xs b',
      sumPaused (readAs shows) (delay millis) n sum b₁ = .ok (sum + xs.sum) b' ∧
        Weighed shows millis b (x :: xs) b' ∧ xs.length = n := by
  induction n generalizing b b₁ x sum with
  | zero => exact ⟨[], b₁, by simp [sumPaused, pure_apply], .last h, rfl⟩
  | succ n ih =>
    obtain ⟨b₂, hpause⟩ := delay_completes (b := b₁) millis (by omega)
    obtain ⟨y, b₃, hy⟩ := readAs_completes shows b₂
    have hleft₂ := (delay_ok hpause).2.2
    have hleft₃ := (readAs_idled hy).delaysLeft
    obtain ⟨ys, b', hsum, hweighed, hlength⟩ := ih hy (by omega) (sum + y)
    refine ⟨y :: ys, b', ?_, .cons h hpause hweighed, by simp [hlength]⟩
    rw [sumPaused, bind_of_ok hpause, bind_of_ok hy, hsum, List.sum_cons, Int.add_assoc]

/-- The mean is that of a group of readings. -/
theorem meanAs_weighs (shows : LoadCell → Int)
    (hleft : max b.procedure.readings 1 - 1 ≤ b.delaysLeft) :
    ∃ xs b', meanAs shows b = .ok (meanOf xs.sum xs.length) b' ∧
      Weighed shows b.procedure.spacingMillis b xs b' ∧ xs.length = max b.procedure.readings 1 := by
  obtain ⟨x, b₁, hx⟩ := readAs_completes shows b
  rw [← (readAs_idled hx).delaysLeft] at hleft
  obtain ⟨xs, b', hsum, hweighed, hlength⟩ :=
    sumPaused_weighs b.procedure.spacingMillis hx hleft x
  have hcount : (x :: xs).length = max b.procedure.readings 1 := by
    rw [List.length_cons, hlength]
    omega
  refine ⟨x :: xs, b', ?_, hweighed, hcount⟩
  rw [meanAs, get_bind_apply, pausedMean, bind_of_ok hx, bind_of_ok hsum, hcount, List.sum_cons]
  rfl

end Action

/-! ## One point -/

theorem Bench.Reaches.procedure_eq (h : b.Reaches Effect.Measuring b') :
    b'.procedure = b.procedure := by
  refine h.frame (·.procedure) fun e he c => ?_
  cases e with
  | occasion o =>
    obtain ⟨_, _, _, _, _, heq, _⟩ := c.afterOccasion_attended o
    rw [Effect.apply, heq]
  | note | pause | poll | read => rfl
  | _ => exact he.elim

/-- One point of a calibration: a reply is heard, and then a group of readings is taken. -/
structure Point (shows : LoadCell → Int) (p : Procedure) (b b₁ b' : Bench) (xs : List Int) :
    Prop where
  heard : ∃ r, b.Heard b₁ r
  unread : Bench.ReadTimes 0 b b₁
  weighed : Weighed shows p.spacingMillis b₁ xs b'
  count : xs.length = max p.readings 1
  reads : Bench.ReadTimes xs.length b₁ b'
  delays : b'.delays.toList = b₁.delays.toList ++ List.replicate (xs.length - 1) p.spacingMillis
  operator : b'.operator = b₁.operator

namespace Point

variable {p : Procedure} {xs : List Int}

theorem of_noted {n : Notice} (h : Point shows p (b.noted n) b₁ b' xs) :
    Point shows p b b₁ b' xs where
  heard := h.heard.imp fun _ hheard => hheard.of_noted
  unread := h.unread
  weighed := h.weighed
  count := h.count
  reads := h.reads
  delays := h.delays
  operator := h.operator

theorem reaches (h : Point shows p b b₁ b' xs) : b.Reaches Effect.Measuring b' := by
  obtain ⟨r, hheard⟩ := h.heard
  exact (hheard.reaches.mono fun _ he => he.measuring).trans h.weighed.reaches

theorem supplied (h : Point shows p b b₁ b' xs) :
    b'.operator.supplied + 1 = b.operator.supplied := by
  obtain ⟨r, hheard⟩ := h.heard
  rw [h.operator]
  exact hheard.gives.supplied

/-- A point costs a delay for each two readings in a row, and for each entry that it used up. -/
theorem delaysLeft_le (h : Point shows p b b₁ b' xs) : b'.operator.patience + b.delaysLeft ≤
    b'.delaysLeft + (max p.readings 1 - 1) + b.operator.patience := by
  obtain ⟨r, hheard⟩ := h.heard
  obtain ⟨k, _, hspent, hpaid⟩ := hheard.pauses
  have hleft := h.weighed.idled.2.2
  rw [h.count] at hleft
  rw [h.operator]
  omega

end Point

/-- A reply is followed by a group of readings, if there are delays for them. -/
theorem Bench.Heard.point (shows : LoadCell → Int) {r : Reply} (h : b.Heard b₁ r)
    (hdelays : b.operator.patience + (max b.procedure.readings 1 - 1) ≤ b.delaysLeft) :
    ∃ xs b', Action.meanAs shows b₁ = .ok (meanOf xs.sum xs.length) b' ∧
      Point shows b.procedure b b₁ b' xs := by
  have hprocedure := (h.reaches.mono fun _ he => he.measuring).procedure_eq
  obtain ⟨k, _, hspent, hpaid⟩ := h.pauses
  rw [← hprocedure] at hdelays ⊢
  obtain ⟨xs, b', hmean, hweighed, hcount⟩ := Action.meanAs_weighs (b := b₁) shows (by omega)
  obtain ⟨hoperator, hpauses, _⟩ := hweighed.idled
  exact ⟨xs, b', hmean, ⟨r, h⟩, .of_waiting h.reaches, hweighed, hcount, hweighed.reads, hpauses,
    hoperator⟩

/-! ## The constants -/

theorem Calibration.checkScaleDivider_eq_error {v : Single} {e : SettingError} :
    checkScaleDivider v = .error e ↔
      e = .invalidScaleFactor .scaleDivider v ∧ (v == 0 ∨ ¬v.isFinite) := by
  unfold checkScaleDivider
  cases hzero : v == 0 <;> cases v.isFinite <;> simp [bne, hzero, eq_comm]

/-- How a calibration ends, by the reference load and the constants that it comes to: it is refused
for the one or for the other and nothing changes, or the constants are new in force and in the
amplifier. -/
structure Settled (reference divider offset : Single) (refusal : Option Refusal)
    (b b' : Bench) : Prop where
  invalid_iff : refusal = some (.calibration (.invalidReferenceLoad reference)) ↔ ¬0 < reference
  nonPositive_iff : refusal = some (.setting (.invalidScaleFactor .scaleDivider divider)) ↔
    0 < reference ∧ (divider == 0 ∨ ¬divider.isFinite)
  accepted_iff : refusal = none ↔ 0 < reference ∧ ¬divider == 0 ∧ divider.isFinite
  refused : refusal ≠ none → b'.calibration = b.calibration ∧
    b'.cell.driverScale = b.cell.driverScale ∧ b'.cell.driverOffset = b.cell.driverOffset
  accepted : refusal = none →
    b'.calibration = { b.calibration with scaleDivider := divider, offset := offset } ∧
      b'.cell.driverScale = divider ∧ b'.cell.driverOffset = offset

/-- What was spared before makes no difference to what was settled. -/
theorem Settled.of_spared {reference divider offset : Single} {refusal : Option Refusal}
    (h : Settled reference divider offset refusal b₁ b') (hspared : b.Spared b₁) :
    Settled reference divider offset refusal b b' where
  invalid_iff := h.invalid_iff
  nonPositive_iff := h.nonPositive_iff
  accepted_iff := h.accepted_iff
  refused := by
    intro hrefused
    obtain ⟨hcalibration, hscale, hoffset⟩ := h.refused hrefused
    exact ⟨hcalibration.trans hspared.calibration, hscale.trans hspared.driverScale,
      hoffset.trans hspared.driverOffset⟩
  accepted := by
    rw [← hspared.calibration]
    exact h.accepted

theorem Settled.of_accepted {reference divider : Single} {offset : Single} {u : Unit}
    (hpos : 0 < reference) (hcheck : Calibration.checkScaleDivider divider = .ok u)
    (h : b'.calibration = { b.calibration with scaleDivider := divider, offset := offset } ∧
      b'.cell.driverScale = divider ∧ b'.cell.driverOffset = offset) :
    Settled reference divider offset none b b' := by
  obtain ⟨hzero, hfinite⟩ := Calibration.checkScaleDivider_eq_ok.1 hcheck
  rw [bne, Bool.not_eq_true'] at hzero
  refine ⟨?_, ?_, ?_, fun hrefused => absurd rfl hrefused, fun _ => h⟩
  · simp [hpos]
  · simp [hzero, hfinite]
  · simp [hpos, hzero, hfinite]

theorem Settled.of_refused {reference divider offset : Single} {e : SettingError}
    (hpos : 0 < reference) (hcheck : Calibration.checkScaleDivider divider = .error e)
    (h : b'.calibration = b.calibration ∧ b'.cell.driverScale = b.cell.driverScale ∧
      b'.cell.driverOffset = b.cell.driverOffset) :
    Settled reference divider offset (some (.setting e)) b b' := by
  obtain ⟨rfl, hwrong⟩ := Calibration.checkScaleDivider_eq_error.1 hcheck
  refine ⟨?_, ?_, ?_, fun _ => h, nofun⟩
  · simp [hpos]
  · simp only [hpos, hwrong, and_self]
  · refine ⟨nofun, fun ⟨_, hzero, hfinite⟩ => ?_⟩
    rcases hwrong with hwrong | hwrong
    · exact absurd hwrong hzero
    · exact absurd hfinite hwrong

namespace LoadCalibration

open LoadBench.Action

variable {m m' : LoadCalibration}

theorem stepsAs_of_ok (h : m.stepAs shows b = .ok (.ok m') b') (hphase : m'.phase ≠ .done)
    (n : Nat) : stepsAs shows (n + 1) m b = stepsAs shows n m' b' := by
  rw [stepsAs, bind_of_ok h]
  exact congrFun (if_neg hphase) b'

theorem stepsAs_of_done (h : m.stepAs shows b = .ok (.ok m') b') (hphase : m'.phase = .done)
    (n : Nat) : stepsAs shows (n + 1) m b = .ok (m', none) b' := by
  rw [stepsAs, bind_of_ok h]
  exact congrFun (if_pos hphase) b'

theorem stepsAs_of_refused {why : Refusal} (h : m.stepAs shows b = .ok (.error why) b') (n : Nat) :
    stepsAs shows (n + 1) m b = .ok (m, some why) b' := by
  rw [stepsAs, bind_of_ok h]
  rfl

theorem step_compute_ok {k : LoadConstants} (hphase : m.phase = .compute)
    (hk : LoadConstants.ofMeans m.zeroMean m.loadMean m.reference = .ok k) (b : Bench) :
    m.step b = .ok (.ok { m with phase := .apply, computed := some k })
      (b.noted (.loadConstants k.offset k.divider)) := by
  unfold step
  rw [hphase]
  simp only [hk]
  rfl

/-- The last two steps write the constants, or are refused for the divider. -/
theorem applies (shows : LoadCell → Int) {k : LoadConstants} {reference : Single}
    (hpos : 0 < reference) (hphase : m.phase = .apply) (hk : m.computed = some k) (b : Bench) :
    ∃ m' refusal b', stepsAs shows 2 m b = .ok (m', refusal) b' ∧
      Settled reference k.divider k.offset refusal b b' ∧
      b'.operator = b.operator ∧ b'.delays = b.delays ∧ Bench.ReadTimes 0 b b' := by
  have happly : m.stepAs shows = m.step := by
    unfold stepAs
    rw [hphase]
  have hspared := b.afterOccasion_spared .change
  have hidled := b.afterOccasion_idled .change
  cases hcheck : Calibration.checkScaleDivider k.divider with
  | ok u =>
    obtain ⟨n, hstep⟩ := step_apply_ok hphase hk hcheck b
    rw [← happly] at hstep
    refine ⟨_, none, _, stepsAs_of_done hstep rfl 1, .of_accepted hpos hcheck ⟨?_, rfl, rfl⟩,
      hidled.operator, hidled.delays, b.afterOccasion_reads .change⟩
    rw [← hspared.calibration]
    rfl
  | error e =>
    have hstep := step_apply_error hphase hk hcheck b
    rw [← happly] at hstep
    exact ⟨_, _, _, stepsAs_of_refused hstep 1, .of_refused hpos hcheck
      ⟨hspared.calibration, hspared.driverScale, hspared.driverOffset⟩, hidled.operator,
      hidled.delays, b.afterOccasion_reads .change⟩

/-- All that is left after the readings. -/
theorem settles (shows : LoadCell → Int) (hphase : m.phase = .compute) (b : Bench) :
    ∃ m' refusal b', stepsAs shows 3 m b = .ok (m', refusal) b' ∧
      Settled m.reference ((m.loadMean - m.zeroMean) / m.reference) m.zeroMean refusal b b' ∧
      b'.operator = b.operator ∧ b'.delays = b.delays ∧ Bench.ReadTimes 0 b b' := by
  have hcompute : m.stepAs shows = m.step := by
    unfold stepAs
    rw [hphase]
  by_cases hpos : 0 < m.reference
  · have hk : LoadConstants.ofMeans m.zeroMean m.loadMean m.reference =
        .ok ⟨m.zeroMean, (m.loadMean - m.zeroMean) / m.reference⟩ := if_pos hpos
    have hstep := step_compute_ok hphase hk b
    rw [← hcompute] at hstep
    obtain ⟨m', refusal, b', hrun, hsettled, hsame⟩ := applies shows hpos
      (m := { m with phase := .apply, computed := some _ }) rfl rfl (b.noted _)
    exact ⟨m', refusal, b', (stepsAs_of_ok hstep nofun 2).trans hrun,
      hsettled.of_spared (Effect.apply_spared (e := .note _) trivial b), hsame⟩
  · have hk : LoadConstants.ofMeans m.zeroMean m.loadMean m.reference =
        .error (.invalidReferenceLoad m.reference) := if_neg hpos
    have hstep := step_compute_error hphase hk b
    rw [← hcompute] at hstep
    refine ⟨_, _, _, stepsAs_of_refused hstep 2, ?_, rfl, rfl, rfl, 0, rfl, by simp⟩
    constructor <;> simp [hpos]

/-! ## From end to end -/

/-- The calibration with the mean of the point that it measures. -/
def withMean (m : LoadCalibration) (mean : Single) : LoadCalibration :=
  match m.phase with
  | .measureZero => { m with phase := .awaitLoad, zeroMean := mean }
  | _ => { m with phase := .compute, loadMean := mean }

def meanNotice (m : LoadCalibration) (mean : Single) : Notice :=
  match m.phase with
  | .measureZero => .zeroReading mean
  | _ => .loadedReading mean

theorem withMean_phase_ne (m : LoadCalibration) (mean : Single) :
    (m.withMean mean).phase ≠ .done := by
  unfold withMean
  split <;> nofun

/-- A phase that waits for the operator goes on to the next phase. -/
theorem stepAs_await (shows : LoadCell → Int) (hphase : m.phase = .awaitZero ∨ m.phase = .awaitLoad)
    (hsupplied : 0 < b.operator.supplied) (hdelays : b.operator.patience ≤ b.delaysLeft) :
    ∃ r b', m.stepAs shows b = .ok (.ok { m with phase := m.phase.next }) b' ∧ b.Heard b' r := by
  have hawait (n : Notice) (next : LoadPhase) : ∃ r b', (do
      note n
      awaitAck
      return .ok { m with phase := next } : Action (Except Refusal LoadCalibration)) b =
        .ok (.ok { m with phase := next }) b' ∧ b.Heard b' r := by
    obtain ⟨r, b', hack, hheard⟩ := awaitAck_completes (b := b.noted n) hsupplied hdelays
    refine ⟨r, b', ?_, hheard.of_noted⟩
    rw [note_bind_apply, bind_of_ok hack]
    rfl
  unfold stepAs step
  rcases hphase with hphase | hphase
  · rw [hphase]
    exact hawait _ _
  · rw [hphase]
    exact hawait _ _

theorem stepAs_measure (shows : LoadCell → Int)
    (hphase : m.phase = .measureZero ∨ m.phase = .measureLoad) {mean : Single}
    (hmean : meanAs shows b = .ok mean b') :
    m.stepAs shows b = .ok (.ok (m.withMean mean)) (b'.noted (m.meanNotice mean)) := by
  unfold stepAs withMean meanNotice
  rcases hphase with hphase | hphase
  · rw [hphase]
    exact bind_of_ok hmean _
  · rw [hphase]
    exact bind_of_ok hmean _

/-- Two phases take a point. -/
theorem takes_point (shows : LoadCell → Int) (hphase : m.phase = .awaitZero ∨ m.phase = .awaitLoad)
    (hsupplied : 0 < b.operator.supplied)
    (hdelays : b.operator.patience + (max b.procedure.readings 1 - 1) ≤ b.delaysLeft) (n : Nat) :
    ∃ xs b₁ b', Point shows b.procedure b b₁ b' xs ∧ stepsAs shows (n + 2) m b =
      let m₁ : LoadCalibration := { m with phase := m.phase.next }
      stepsAs shows n (m₁.withMean (meanOf xs.sum xs.length))
        (b'.noted (m₁.meanNotice (meanOf xs.sum xs.length))) := by
  obtain ⟨r, b₁, hack, hheard⟩ := stepAs_await shows hphase hsupplied (by omega)
  obtain ⟨xs, b', hmean, hpoint⟩ := hheard.point shows hdelays
  have hmeasures : m.phase.next = .measureZero ∨ m.phase.next = .measureLoad :=
    hphase.imp (fun h => by rw [h]; rfl) (fun h => by rw [h]; rfl)
  have hmoving : m.phase.next ≠ .done := by
    rcases hmeasures with h | h <;> rw [h] <;> nofun
  have hmeasure := stepAs_measure (m := { m with phase := m.phase.next }) shows hmeasures hmean
  refine ⟨xs, b₁, b', hpoint, ?_⟩
  rw [stepsAs_of_ok hack hmoving]
  exact stepsAs_of_ok hmeasure (withMean_phase_ne _ _) n

theorem completeAs_of_run {shows : LoadCell → Int} {refusal : Option Refusal}
    (h : runAs shows m b = .ok (m', refusal) b') :
    completeAs shows m b = .ok (m', refusal.elim (.ok b'.calibration) .error) b' := by
  rw [completeAs, bind_of_ok h]
  cases refusal <;> rfl

/-- A bench whose operator puts a load on the cell before the second reply. -/
def loading : Bench where
  cell := { zeroCounts := 100, countsPerUnit := 10 }
  operator := { pollMillis := 1, sources := [.scripted [⟨none, .proceed⟩, ⟨some 4, .proceed⟩]] }
  ticksLeft := 0
  delaysLeft := 1000

end LoadCalibration

end LoadBench
