import LoadBench.Bench.Basic

/-!
# Configurations

What a bench starts with: its program, its constants, and how it samples and measures. A
configuration that stands for no bench is refused for one of three causes: its file cannot be read,
its document does not describe it, or one of its settings is out of range.
-/

namespace LoadBench

inductive FileError where
  | missing
  | directory
  | notText
  /-- The system does not let it be read. -/
  | refused (why : String)
  deriving DecidableEq, Repr

inductive DocumentError where
  /-- The text is no TOML document. -/
  | malformed
  /-- The value of this key has another type, or is too large or too long. -/
  | unfit (key : String)
  /-- The constants of the document are refused. -/
  | refused (e : SettingError)

/-- Why there is no configuration. -/
inductive ConfigError where
  | file (e : FileError)
  | document (e : DocumentError)
  | setting (e : SettingError)

def FileError.message : FileError → String
  | .missing => "No such file or directory (os error 2)"
  | .directory => "Is a directory (os error 21)"
  | .notText => "stream did not contain valid UTF-8"
  | .refused why => why

def DocumentError.message : DocumentError → String
  | .malformed => "not a TOML document"
  | .unfit key => "unfit value for " ++ key
  | .refused e => e.message

namespace ConfigError

/-- What is said of a file or a document is kept to 128 bytes. -/
def detail (text : String) : String := .ofList (cut 128 text.toList)

def message : ConfigError → String
  | .file e => "Configuration error: I/O error: " ++ detail e.message
  | .document e => "Configuration error: TOML error: " ++ detail e.message
  | .setting e => "Configuration error: " ++ e.message

end ConfigError

structure Sampling where
  /-- Raw readings per sample. -/
  readings : Nat := 5
  /-- Pause of the sampling between two looks at an empty mailbox, in microseconds. -/
  pollMicros : Nat := 200
  deriving DecidableEq, Repr

structure Config where
  /-- Program lines in order. -/
  program : List String := []
  calibration : Calibration := .initial
  sampling : Sampling := {}
  procedure : Procedure := {}
  /-- The run starts without a signal of the operator. -/
  autostart : Bool := false

/-- Scale factors are checked before averaging counts. Program lines are not checked: each reports
its own error when the run reaches it. -/
def Config.validate (c : Config) : Except SettingError Unit := do
  Calibration.checkStepsPerUnit c.calibration.stepsPerUnit
  Calibration.checkScaleDivider c.calibration.scaleDivider
  if c.sampling.readings = 0 then throw (.zeroReadings .perSample)
  if c.procedure.readings = 0 then throw (.zeroReadings .perMeasurement)

end LoadBench
