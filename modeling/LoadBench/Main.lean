import LoadBench.Session

/-!
# The program

Reads the command line, the configuration and the lines of the operator, and writes the log to
standard error.
-/

namespace LoadBench.Console

def usage : String :=
  "Stepper load test sequencer\n\n" ++
  "Usage: loadbench [OPTIONS] <CONFIG>\n\n" ++
  "Arguments:\n  <CONFIG>  Bench configuration file (TOML)\n\n" ++
  "Options:\n" ++
  "      --autostart                          Start without waiting for the operator\n" ++
  "      --operator-pipe <OPERATOR_PIPE>      Second operator input, read line by line\n" ++
  "      --fast                               Step as fast as possible\n" ++
  "      --zero-counts <ZERO_COUNTS>          Raw counts of the unloaded simulated cell\n" ++
  "      --counts-per-unit <COUNTS_PER_UNIT>  Raw counts per load unit of the simulated cell\n" ++
  "      --load-per-step <LOAD_PER_STEP>      Load added per actuator step by the spring\n" ++
  "  -h, --help                               Print help\n" ++
  "  -V, --version                            Print version"

def fileError : IO.Error → FileError
  | .noFileOrDirectory .. => .missing
  | .inappropriateType .. => .directory
  | e => .refused (toString e)

def readFile (path : String) : IO (Except FileError ByteArray) := do
  try
    return .ok (← IO.FS.readBinFile path)
  catch e =>
    return .error (fileError e)

def report (n : Notice) : IO Unit := do
  if n.level.verbosity ≤ Level.info.verbosity then
    IO.eprintln (Session.logLine n)

def readLine (reader : Reader) (input : IO.FS.Stream) : IO (List TypedLine) := do
  try
    return TypedLine.ofText reader (← input.getLine)
  catch _ =>
    return []

/-- Nothing is typed any more. -/
partial def idle : IO TypedLine := do
  IO.sleep 1000
  idle

def nextTyped (input : IO.FS.Stream) : IO TypedLine := do
  match ← readLine .stdin input with
  | line :: _ => return line
  | [] =>
    report (.readerFinished .stdin)
    idle

abbrev Queue := IO.Ref (List TypedLine)

/-- Queues all lines of an input. -/
partial def queueLines (queue : Queue) (reader : Reader) (input : IO.FS.Stream) : IO Unit := do
  match ← readLine reader input with
  | [] => report (.readerFinished reader)
  | ls =>
    queue.modify (· ++ ls)
    queueLines queue reader input

def queuePipe (queue : Queue) (path : String) : IO Unit := do
  try
    let handle ← IO.FS.Handle.mk path .read
    queueLines queue .pipe (.ofHandle handle)
  catch e =>
    report (.readerFailed .pipe (fileError e).message)

/-- The next line of a queue. -/
partial def nextQueued (queue : Queue) (millis : Nat) : IO TypedLine := do
  match ← queue.modifyGet fun ls => (ls.head?, ls.tail) with
  | some line => return line
  | none =>
    IO.sleep (.ofNat (max millis 1))
    nextQueued queue millis

/-- Goes through a session, as far as it has come after each line typed. -/
partial def converse (o : Options) (c : Config) (next : IO TypedLine) (typed : List TypedLine)
    (shown : Nat) : IO Unit := do
  let t := Session.play o c typed
  for (micros, n) in t.news o.fast shown do
    if micros > 0 then
      IO.sleep (.ofNat (micros / 1000))
    report n
  unless t.finished do
    converse o c next (typed ++ [← next]) t.log.size

/-- Runs a configuration. Two inputs are read side by side, a single one when the bench waits. -/
def runSession (o : Options) (c : Config) : IO Unit := do
  let stdin ← IO.getStdin
  match o.operatorPipe with
  | none => converse o c (nextTyped stdin) [] 0
  | some path =>
    let queue : Queue ← IO.mkRef []
    let _ ← IO.asTask (queueLines queue .stdin stdin) .dedicated
    let _ ← IO.asTask (queuePipe queue path) .dedicated
    converse o c (nextQueued queue c.procedure.pollMillis) [] 0

end LoadBench.Console

def main (args : List String) : IO UInt32 := do
  match LoadBench.CommandLine.request args with
  | .help =>
    IO.println LoadBench.Console.usage
    return 0
  | .version =>
    IO.println "loadbench 0.1.0"
    return 0
  | .refused e =>
    IO.eprintln ("error: " ++ e.message)
    return 2
  | .run o =>
    match LoadBench.Config.ofFile (← LoadBench.Console.readFile o.config) with
    | .error e =>
      IO.eprintln ("Error: " ++ e.message)
      return 1
    | .ok c =>
      LoadBench.Console.runSession o c
      return 0
