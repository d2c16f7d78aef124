import LoadBench.Command.Line

/-!
# Programs

A program keeps the lines that are no commands, so that a line keeps its number and is refused each
time it is reached.
-/

namespace LoadBench

structure ProgramLine where
  source : String
  command : Except LineError Command

def ProgramLine.ofSource (source : String) : ProgramLine := ⟨source, Command.ofLine source⟩

abbrev Program := List ProgramLine

def Program.ofLines (lines : List String) : Program := lines.map .ofSource

def Program.errorCount (p : Program) : Nat := p.countP fun line => !line.command.isOk

end LoadBench
