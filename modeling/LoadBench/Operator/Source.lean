import LoadBench.Log

/-!
# Sources of replies

A source is polled for a reply and never waits. Scripts and tables of polls stand for an operator
in a dry run; a line carries replies that another thread sends; typed lines are what an operator has
written so far.
-/

namespace LoadBench

/-- A reply of a script, and the load that is put on the cell just before it. -/
structure ScriptStep where
  load : Option Single
  reply : Reply

/-- The far end of a line of replies. -/
inductive LineState where
  | open
  /-- The sender is gone, which the next poll that finds the line empty will notice. -/
  | dropped
  /-- The end was noticed. -/
  | closed
  deriving DecidableEq, Repr

/-- One independent source of replies. -/
inductive Source where
  /-- One step of the script for each poll. -/
  | scripted (steps : List ScriptStep)
  /-- One entry for each poll, then nothing. -/
  | polled (entries : List (Option Reply))
  /-- Replies sent but not yet received, first in first out. -/
  | line (waiting : List Reply) (state : LineState)
  /-- Lines typed since the start of the run. -/
  | typed (lines : List TypedLine)

/-- What one poll of a source did. -/
structure Polled where
  reply : Option Reply := none
  /-- The load that was put on the cell, if any. -/
  load : Option Single := none
  notice : Option Notice := none
  /-- The source after the poll. -/
  source : Source

namespace Source

def poll : Source → Polled
  | .scripted [] => { source := .scripted [] }
  | .scripted (s :: rest) => { reply := some s.reply, load := s.load, source := .scripted rest }
  | .polled [] => { source := .polled [] }
  | .polled (entry :: rest) => { reply := entry, source := .polled rest }
  | .line waiting .closed => { source := .line waiting .closed }
  | .line (r :: rest) state => { reply := some r, source := .line rest state }
  | .line [] .open => { source := .line [] .open }
  | .line [] .dropped => { notice := some .inputClosed, source := .line [] .closed }
  | .typed [] => { source := .typed [] }
  | .typed (l :: rest) =>
    match forward true l.text with
    | .reply r => { reply := some r, source := .typed rest }
    | _ => { notice := some (.lineIgnored l), source := .typed rest }

/-- Sends a reply down a line whose sender is there; says whether it was sent. -/
def send (r : Reply) : Source → Bool × Source
  | .line waiting .open => (true, .line (waiting ++ [r]) .open)
  | s => (false, s)

def drop : Source → Source
  | .line waiting .open => .line waiting .dropped
  | s => s

def remaining : Source → Nat
  | .scripted steps => steps.length
  | .polled entries => (entries.filterMap id).length
  | .line waiting _ => waiting.length
  | .typed lines => lines.length

/-- Whether only an operator at the keyboard can make the source reply again. -/
def needsTyping : Source → Bool
  | .typed [] => true
  | _ => false

def summary (s : Source) : String := s!"ScriptedInput \x7b remaining: {s.remaining} \x7d"

end Source

end LoadBench
