import LoadBench.LoadCell
import LoadBench.Motion.Actuator
import LoadBench.Operator.Channel
import LoadBench.Sampling.Cadence

/-!
# The bench

All that a run can read or change, in one state: the constants in force, the simulated hardware and
its clock, the mailbox and the sampling that empties it, the operator, and what was reported.

Sampling works beside the run. Between any two steps of the run that touch something both share it
may get a turn; which turns it gets is the schedule, a parameter of the bench. A statement about all
schedules is a statement about all interleavings.

A wait for the operator may last for ever, and so may a move whose speed rounds to zero. So a bench
has an allowance of ticks and of delays, and a run that needs more stops there.
-/

namespace LoadBench

structure Procedure where
  /-- Readings per measurement. -/
  readings : Nat := 5
  /-- Pause between two readings, in milliseconds. -/
  spacingMillis : Nat := 100
  /-- Pause between two looks at the operator inputs, in milliseconds. -/
  pollMillis : Nat := 10
  deriving DecidableEq, Repr

/-- Where the sampling delivers its samples. -/
structure Sink where
  /-- Samples are collected. -/
  keeps : Bool := true
  /-- Samples are written to the log. -/
  reports : Bool := false
  deriving DecidableEq, Repr

/-- The sampling, which turns requests into samples. -/
structure Sampler where
  /-- Raw readings per sample. -/
  readings : Nat := 5
  sink : Sink := {}
  /-- Samples delivered so far. -/
  delivered : Nat := 0
  /-- Samples collected so far. -/
  samples : Array Sample := #[]

/-- Points of a run between which the sampling may get a turn. -/
inductive Occasion where
  /-- The driver is about to be energised. -/
  | enable
  /-- The driver is about to be released. -/
  | disable
  /-- A move is about to set its speed. -/
  | move
  /-- The tick of this number, counted from the beginning, is about to happen. -/
  | tick (number : Nat)
  /-- A request is about to be posted. -/
  | request
  /-- A delay is about to begin. -/
  | delay
  /-- The run is about to read the load cell. -/
  | reading
  /-- The operator inputs are about to be polled. -/
  | poll
  /-- Constants are about to change. -/
  | change
  deriving DecidableEq, Repr

inductive Turn where
  /-- The sampling looks for a request and serves it. -/
  | serve
  /-- A request is taken and comes to nothing. -/
  | discard
  deriving DecidableEq, Repr

/-- The turns that fall on an occasion; occasions are numbered from the beginning. -/
abbrev Schedule := Nat → Occasion → List Turn

/-- A notice, the clock when it was reported, and how many delays came before it. -/
structure Record where
  notice : Notice
  clock : UInt64
  delays : Nat

structure Bench where
  calibration : Calibration := .initial
  actuator : Actuator := {}
  /-- Load per step of a spring between actuator and cell, if there is one. -/
  spring : Option Single := none
  /-- Microseconds, modulo 2 ^ 64. -/
  clock : UInt64 := 0
  /-- Where the last completed move ended. -/
  position : Single := 0
  cell : LoadCell
  mailbox : Mailbox := {}
  /-- Requests posted so far. -/
  requests : Array Request := #[]
  sampler : Sampler := {}
  operator : Channel
  procedure : Procedure := {}
  tally : Tally := {}
  /-- Delays made so far, in milliseconds. -/
  delays : Array Nat := #[]
  log : Array Record := #[]
  schedule : Schedule := fun _ _ => []
  /-- Occasions so far. -/
  occasions : Nat := 0
  /-- Ticks so far. -/
  ticks : Nat := 0
  /-- Ticks that may still be made. -/
  ticksLeft : Nat
  /-- Delays that may still be made. -/
  delaysLeft : Nat

/-- What a run has used up. -/
inductive Limit where
  | ticks
  | delays
  deriving DecidableEq, Repr

inductive Stop where
  /-- The command is refused; a run goes on with the next. -/
  | refused (why : Refusal)
  /-- An allowance is used up. -/
  | exhausted (what : Limit)
  /-- Nothing happens before the operator types a line. -/
  | awaitingOperator

/-- Steps on a bench. -/
abbrev Action := EStateM Stop Bench

namespace Bench

def noted (b : Bench) (n : Notice) : Bench :=
  { b with log := b.log.push ⟨n, b.clock, b.delays.size⟩ }

def delivered (b : Bench) (s : Sample) : Bench :=
  let b := if b.sampler.sink.reports then b.noted (.sampled s) else b
  let kept := b.sampler.samples
  { b with sampler := { b.sampler with
      delivered := b.sampler.delivered + 1
      samples := if b.sampler.sink.keeps then kept.push s else kept } }

/-- The bench after the sampling looked for a request: the request is taken, readings are
averaged, and the sample is delivered. -/
def served (b : Bench) : Bench :=
  match b.mailbox.pending with
  | none => b
  | some r =>
    let (raw, cell) := (burstMean LoadCell.read b.sampler.readings).run b.cell
    { b with mailbox := b.mailbox.take, cell }.delivered
      ⟨r.index, r.position, raw, b.calibration.load raw, b.clock.toNat⟩

def afterTurn (b : Bench) : Turn → Bench
  | .serve => b.served
  | .discard => { b with mailbox := b.mailbox.take }

def afterOccasion (b : Bench) (o : Occasion) : Bench :=
  (b.schedule b.occasions o).foldl afterTurn { b with occasions := b.occasions + 1 }

def posted (b : Bench) (r : Request) : Bench :=
  let lost := b.mailbox.pending
  let b := { b with mailbox := b.mailbox.publish r, requests := b.requests.push r }
  match lost with
  | some old => b.noted (.requestOverwritten old.index r.index)
  | none => b

def ticked (b : Bench) : Bench :=
  let (actuator, micros) := b.actuator.tick
  let clock := b.clock + .ofNat micros
  let load := match b.spring with
    | some perStep => if b.actuator.steps then .ofInt actuator.position * perStep else b.cell.load
    | none => b.cell.load
  { b with actuator, clock, cell := { b.cell with load }, ticks := b.ticks + 1 }

def withSpring (b : Bench) (perStep : Single) : Bench :=
  { b with
    spring := some perStep
    cell := { b.cell with load := .ofInt b.actuator.position * perStep } }

/-- The bench after the sampling was told to stop: it serves what is still pending. One look
empties the mailbox, which holds at most one request. -/
def samplingStopped (b : Bench) : Bench :=
  let b := b.served
  b.noted (.samplingStopped b.sampler.delivered)

end Bench

namespace Action

def note (n : Notice) : Action Unit := modify (·.noted n)

def occasion (o : Occasion) : Action Unit := modify (·.afterOccasion o)

def refuse {α : Type} (why : Refusal) : Action α := throw (.refused why)

/-- Takes a result, or refuses for its cause. -/
def accept {ε α : Type} (cause : ε → Refusal) : Except ε α → Action α
  | .ok a => pure a
  | .error e => refuse (cause e)

def delay (millis : Nat) : Action Unit := do
  occasion .delay
  let b ← get
  if b.delaysLeft = 0 then
    throw (.exhausted .delays)
  else
    set { b with delays := b.delays.push millis, delaysLeft := b.delaysLeft - 1 }

def tick : Action Unit := do
  let b ← get
  if b.ticksLeft = 0 then
    throw (.exhausted .ticks)
  else
    set { b with ticksLeft := b.ticksLeft - 1 }
    occasion (.tick b.ticks)
    modify Bench.ticked

def post (r : Request) : Action Unit := do
  occasion .request
  modify (·.posted r)

def readCell : Action Int := do
  occasion .reading
  modifyGet fun b => let (raw, cell) := LoadCell.read.run b.cell; (raw, { b with cell })

end Action

end LoadBench
