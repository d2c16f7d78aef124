import LoadBench.Number.Numeral

/-!
# The command line

A run is started by words: the path of its configuration, and options in any order before or after
it. An option that takes a value has it in the same word after an equals sign or in the next word,
which then must not start with a dash. Words after `--` are no options. The first word that is wrong
or that asks for help decides; what comes after it is not looked at.
-/

namespace LoadBench

structure Options where
  /-- Path of the configuration. -/
  config : String
  autostart : Bool := false
  /-- A second input of the operator, read line by line. -/
  operatorPipe : Option String := none
  /-- The run does not keep to real time. -/
  fast : Bool := false
  /-- Raw counts of the unloaded cell. -/
  zeroCounts : Int := 8000
  /-- Raw counts per unit of load. -/
  countsPerUnit : Single := 42
  /-- Load added by each step. -/
  loadPerStep : Single := 0.01

namespace CommandLine

/-- An option without a value. -/
inductive Flag where
  | autostart
  | fast
  deriving DecidableEq, Repr

inductive Setting where
  | operatorPipe
  | zeroCounts
  | countsPerUnit
  | loadPerStep
  deriving DecidableEq, Repr

inductive UsageError where
  | unknownOption (word : String)
  /-- A flag was given a value. -/
  | needlessValue (flag : String)
  | missingValue (option : String)
  | repeated (option : String)
  | invalidValue (option value : String)
  /-- A second path. -/
  | surplus (word : String)
  | missingConfig
  deriving DecidableEq, Repr

/-- What a command line asks for. -/
inductive Request where
  | run (o : Options)
  | help
  | version
  | refused (e : UsageError)

def Flag.name : Flag → String
  | .autostart => "autostart"
  | .fast => "fast"

def Setting.name : Setting → String
  | .operatorPipe => "operator-pipe"
  | .zeroCounts => "zero-counts"
  | .countsPerUnit => "counts-per-unit"
  | .loadPerStep => "load-per-step"

def flags : List Flag := [.autostart, .fast]

def settings : List Setting := [.operatorPipe, .zeroCounts, .countsPerUnit, .loadPerStep]

def UsageError.message : UsageError → String
  | .unknownOption word => "unexpected argument '" ++ word ++ "' found"
  | .needlessValue flag => "unexpected value for '--" ++ flag ++ "' found; no more were expected"
  | .missingValue option => "a value is required for '--" ++ option ++ "' but none was supplied"
  | .repeated option => "the argument '--" ++ option ++ "' cannot be used multiple times"
  | .invalidValue option value => "invalid value '" ++ value ++ "' for '" ++ option ++ "'"
  | .surplus word => "unexpected argument '" ++ word ++ "' found"
  | .missingConfig => "the following required arguments were not provided: <CONFIG>"

def integer? (cs : List Char) : Option Int :=
  let (negative, ds) := Numeral.splitSign cs
  if ds ≠ [] ∧ ds.all Char.isDigit then
    some (if negative then -(Numeral.natOf ds : Int) else Numeral.natOf ds)
  else
    none

def counts? (value : String) : Option Int := do
  let n ← integer? value.toList
  if -0x80000000 ≤ n ∧ n < 0x80000000 then some n else none

structure Words where
  config : Option String := none
  flags : List Flag := []
  settings : List Setting := []
  /-- What the settings say; the path is not among them. -/
  options : Options := { config := "" }

namespace Words

def setFlag (w : Words) (f : Flag) : Except Request Words :=
  if f ∈ w.flags then .error (.refused (.repeated f.name))
  else
    let w := { w with flags := f :: w.flags }
    .ok <| match f with
      | .autostart => { w with options := { w.options with autostart := true } }
      | .fast => { w with options := { w.options with fast := true } }

/-- The options with the value of a setting, if the value fits it. -/
def valued? (o : Options) (value : String) : Setting → Option Options
  | .operatorPipe => if value = "" then none else some { o with operatorPipe := some value }
  | .zeroCounts => (counts? value).map fun n => { o with zeroCounts := n }
  | .countsPerUnit => (Single.read? value.toList).map fun x => { o with countsPerUnit := x }
  | .loadPerStep => (Single.read? value.toList).map fun x => { o with loadPerStep := x }

def set (w : Words) (s : Setting) (value : String) : Except Request Words :=
  if s ∈ w.settings then .error (.refused (.repeated s.name))
  else match valued? w.options value s with
    | some options => .ok { w with settings := s :: w.settings, options }
    | none => .error (.refused (.invalidValue s.name value))

def setConfig (w : Words) (path : String) : Except Request Words :=
  match w.config with
  | some _ => .error (.refused (.surplus path))
  | none =>
    if path = "" then .error (.refused (.invalidValue "CONFIG" path))
    else .ok { w with config := some path }

def request (w : Words) : Request :=
  match w.config with
  | some path => .run { w.options with config := path }
  | none => .refused .missingConfig

end Words

inductive Word where
  /-- The word `--`. -/
  | separator
  /-- A word `--name` or `--name=value`. -/
  | long (name : String) (value : Option String)
  /-- The first letter of a word `-x`. -/
  | short (letter : Char)
  | plain
  deriving DecidableEq, Repr

def Word.of (word : String) : Word :=
  match word.toList with
  | ['-', '-'] => .separator
  | '-' :: '-' :: cs =>
    let value := match cs.dropWhile (· != '=') with
      | [] => none
      | _ :: value => some (String.ofList value)
    .long (.ofList (cs.takeWhile (· != '='))) value
  | '-' :: c :: _ => .short c
  | _ => .plain

def ofShort (word : String) (letter : Char) : Request :=
  if letter = 'h' then .help
  else if letter = 'V' then .version
  else .refused (.unknownOption word)

/-- A word of an option without a value of its own. -/
def flag (w : Words) (name : String) : Except Request Words :=
  if name = "help" then .error .help
  else if name = "version" then .error .version
  else match flags.find? (·.name = name) with
    | some f => w.setFlag f
    | none => .error (.refused (.unknownOption ("--" ++ name)))

def read (w : Words) : List String → Except Request Words
  | [] => .ok w
  | word :: rest =>
    match Word.of word with
    | .separator => rest.foldlM Words.setConfig w
    | .short letter => .error (ofShort word letter)
    | .plain => do read (← w.setConfig word) rest
    | .long name value =>
      match settings.find? (·.name = name), value with
      | some s, some value => do read (← w.set s value) rest
      | some s, none =>
        match rest with
        | value :: rest =>
          if Word.of value = .plain then do read (← w.set s value) rest
          else .error (.refused (.missingValue name))
        | [] => .error (.refused (.missingValue name))
      | none, none => do read (← flag w name) rest
      | none, some _ =>
        let known := name ∈ ["help", "version"] ∨ name ∈ flags.map Flag.name
        .error (.refused (if known then .needlessValue name else .unknownOption word))

def request (words : List String) : Request :=
  match read {} words with
  | .ok w => w.request
  | .error r => r

end CommandLine

end LoadBench
