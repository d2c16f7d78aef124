import LoadBench.Number.Single

/-!
# Commands

What one line of a program asks the bench to do.
-/

namespace LoadBench

inductive Opcode where
  | configure
  | move
  | wait
  | replay
  deriving DecidableEq, Repr

def Opcode.name : Opcode → String
  | .configure => "G00"
  | .move => "G01"
  | .wait => "G02"
  | .replay => "G03"

def Opcode.read? : List Char → Option Opcode
  | ['G', '0', '0'] => some .configure
  | ['G', '0', '1'] => some .move
  | ['G', '0', '2'] => some .wait
  | ['G', '0', '3'] => some .replay
  | _ => none

structure Constants where
  stepsPerUnit : Option Single
  scaleDivider : Option Single
  offset : Option Single

inductive Command where
  /-- Move to a position and request `samples` load samples on the way, none if not positive. -/
  | move (target feedrate : Single) (samples : Int)
  /-- Dwell. -/
  | wait (seconds : Single)
  /-- Replay all lines before this one. -/
  | replay (cycles : Nat)
  | constants (given : Constants)
  /-- Calibrate the load cell against a reference load. -/
  | calibrateLoad (reference : Single)
  /-- Calibrate the steps per unit by a measured move. -/
  | calibrateDistance (target feedrate : Single)

def Command.opcode : Command → Opcode
  | .move .. => .move
  | .wait .. => .wait
  | .replay .. => .replay
  | .constants .. | .calibrateLoad .. | .calibrateDistance .. => .configure

end LoadBench
