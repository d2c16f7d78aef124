import LoadBench.Bench.Basic

/-!
# Moves on the bench

A move sets speed and target, ticks until the actuator has arrived, and posts its sample requests on
the way. Only then is the new position in force.
-/

namespace LoadBench

structure MoveReport where
  plan : Plan
  /-- Sample requests posted. -/
  samples : Nat
  /-- Ticks until the actuator arrived. -/
  ticks : Nat

namespace Bench

def aimed (b : Bench) (p : Plan) : Bench :=
  { b with actuator := { b.actuator with speed := p.speed, target := p.target } }

def rebased (b : Bench) (stepsPerUnit : Single) : Bench :=
  { b with position := distanceOf b.actuator.position stepsPerUnit }

def energised (b : Bench) (on : Bool) : Bench :=
  { b with actuator := { b.actuator with enabled := on } }

end Bench

namespace Action

/-- Lets a cadence see the clock, and posts the request that falls due at the place where the
actuator stands. Says whether there was one. -/
def follow (step : Cadence → Nat → Option Nat × Cadence) (stepsPerUnit : Single) :
    Option Cadence → Action (Bool × Option Cadence)
  | none => return (false, none)
  | some c => do
    let b ← get
    match step c b.clock.toNat with
    | (some index, c) =>
      post ⟨index, distanceOf b.actuator.position stepsPerUnit⟩
      return (true, some c)
    | (none, c) => return (false, some c)

/-- Ticks until the actuator has arrived, at most `allowance` times; counts the ticks. -/
def travel (stepsPerUnit : Single) :
    (allowance : Nat) → Option Cadence → Nat → Action (Nat × Option Cadence)
  | 0, c, ticks => do
    if (← get).actuator.toGo = 0 then return (ticks, c) else throw (.exhausted .ticks)
  | allowance + 1, c, ticks => do
    if (← get).actuator.toGo = 0 then
      return (ticks, c)
    else
      tick
      let (requested, c) ← follow Cadence.tick stepsPerUnit c
      if requested then
        note (.sampleRequested (distanceOf (← get).actuator.position stepsPerUnit))
      travel stepsPerUnit allowance c (ticks + 1)

def move (target feedrate : Single) (samples : Int) (stepsPerUnit : Single) :
    Action MoveReport := do
  let b ← get
  let plan ← accept .motion (Plan.make b.actuator.position target feedrate stepsPerUnit)
  note (.moving target plan.target plan.delta plan.speed plan.seconds)
  occasion .move
  modify (·.aimed plan)
  let cadence := Cadence.ofPlan? samples plan (← get).clock.toNat
  let (_, cadence) ← follow Cadence.start stepsPerUnit cadence
  let (ticks, cadence) ← travel stepsPerUnit ((← get).ticksLeft + 1) cadence 0
  let (_, cadence) ← follow (fun c _ => c.complete) stepsPerUnit cadence
  modify ({ · with position := target })
  return { plan, samples := (cadence.map Cadence.published).getD 0, ticks }

end Action

end LoadBench
