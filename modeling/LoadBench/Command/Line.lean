import LoadBench.Command.Basic
import LoadBench.Error

/-!
# Reading command lines

A line is an opcode of three bytes and fields in any order. A command consults the fields it knows
in a fixed order, and the first that is bad, or missing though needed, refuses the line. Fields that
are not consulted may hold anything.
-/

namespace LoadBench

namespace Fields

def number? (fields : Fields) (k : Field) : Except LineError (Option Single) :=
  match fields.value k with
  | .absent => .ok none
  | .bad text => .error (.ofValue k text)
  | .number x => .ok (some x)

def number (fields : Fields) (k : Field) : Except LineError Single := do
  match ← fields.number? k with
  | some x => pure x
  | none => throw (.missingField [k])

end Fields

/-- Sample counts and cycle counts are cut to whole numbers of 32 bits. -/
def sampleCount (x : Single) : Int := x.truncate (-0x80000000) 0x7FFFFFFF

/-- A cycle count that is not positive is no cycle. -/
def cycleCount (x : Single) : Nat := (x.truncate 0 0xFFFFFFFF).toNat

namespace Command

/-- Constants are set if any is given; else a reference load calibrates the load cell; else a
target calibrates the steps per unit. -/
def configuration (fields : Fields) : Except LineError Command := do
  let stepsPerUnit ← fields.number? .spi
  let scaleDivider ← fields.number? .dlc
  let offset ← fields.number? .olc
  if stepsPerUnit.isSome || scaleDivider.isSome || offset.isSome then
    return .constants { stepsPerUnit, scaleDivider, offset }
  if let some reference ← fields.number? .rlc then
    return .calibrateLoad reference
  match ← fields.number? .x with
  | some target => return .calibrateDistance target (← fields.number .f)
  | none => throw (.missingField [.spi, .dlc, .olc, .rlc, .x])

def ofFields (fields : Fields) : Opcode → Except LineError Command
  | .configure => configuration fields
  | .move => do
    let target ← fields.number .x
    let feedrate ← fields.number .f
    let samples ← fields.number? .rlc
    return .move target feedrate ((samples.map sampleCount).getD 0)
  | .wait => return .wait (← fields.number .w)
  | .replay => return .replay (cycleCount (← fields.number .c))

def ofChars (line : List Char) : Except LineError Command :=
  let line := trim line
  match splitBytes? 3 line with
  | none => .error (.ofOpcode line)
  | some (front, body) =>
    match Opcode.read? front with
    | none => .error (.ofOpcode front)
    | some opcode => ofFields (.ofBody body) opcode

def ofLine (line : String) : Except LineError Command := ofChars line.toList

end Command

end LoadBench
