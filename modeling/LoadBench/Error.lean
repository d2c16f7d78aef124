import LoadBench.Command.Field
import LoadBench.Number.Shortest
import LoadBench.Text.Cut

/-!
# Refusals

Why a line, a move, a calibration or a setting is refused, as causes, with one wording for each.
-/

namespace LoadBench

inductive LineError where
  | unknownOpcode (opcode : String)
  /-- None of these fields is there, and the command needs one. -/
  | missingField (anyOf : List Field)
  | invalidValue (field : Field) (text : String)
  deriving DecidableEq, Repr

inductive MotionError where
  | invalidFeedrate (feedrate : Single)

inductive CalibrationError where
  | invalidReferenceLoad (load : Single)
  | invalidObservedDistance (distance : Single)

inductive ScaleFactor where
  | stepsPerUnit
  | scaleDivider
  deriving DecidableEq, Repr

inductive ReadingCount where
  | perSample
  | perMeasurement
  deriving DecidableEq, Repr

inductive SettingError where
  | invalidScaleFactor (factor : ScaleFactor) (value : Single)
  | zeroReadings (count : ReadingCount)

/-- Why something the bench was asked for is not done. -/
inductive Refusal where
  | line (e : LineError)
  | motion (e : MotionError)
  | calibration (e : CalibrationError)
  | setting (e : SettingError)

namespace LineError

/-- An opcode is quoted by its first three characters, in at most eight bytes. -/
def ofOpcode (text : List Char) : LineError := .unknownOpcode (.ofList (cut 8 (text.take 3)))

/-- A value is quoted in at most 32 bytes. -/
def ofValue (k : Field) (text : List Char) : LineError := .invalidValue k (.ofList (cut 32 text))

def message : LineError → String
  | .unknownOpcode opcode =>
    "Unknown opcode '" ++ opcode ++ "'. Valid opcodes: G00, G01, G02, G03"
  | .missingField anyOf => "Missing mandatory field " ++ "|".intercalate (anyOf.map Field.name)
  | .invalidValue k text => "Field " ++ k.name ++ " has non-numeric value '" ++ text ++ "'"

end LineError

def MotionError.message : MotionError → String
  | .invalidFeedrate v => "Invalid feedrate: " ++ v.text ++ ". Must be > 0"

def CalibrationError.message : CalibrationError → String
  | .invalidReferenceLoad v => "Invalid reference load: " ++ v.text ++ ". Must be > 0"
  | .invalidObservedDistance v => "Invalid observed distance: " ++ v.text ++ ". Must be > 0"

def ScaleFactor.name : ScaleFactor → String
  | .stepsPerUnit => "steps_per_unit"
  | .scaleDivider => "scale_divider"

def ReadingCount.name : ReadingCount → String
  | .perSample => "sampling.readings_per_sample"
  | .perMeasurement => "procedure.readings"

def SettingError.message : SettingError → String
  | .invalidScaleFactor factor value =>
    "Invalid scale factor " ++ factor.name ++ " = " ++ value.text
  | .zeroReadings count => count.name ++ " must be at least 1"

def Refusal.message : Refusal → String
  | .line e => "Parse error: " ++ e.message
  | .motion e => "Motion error: " ++ e.message
  | .calibration e => "Calibration error: " ++ e.message
  | .setting e => "Configuration error: " ++ e.message

/-! ## Results that may be errors -/

section Results

variable {ε ε' α β : Type}

theorem except_bind_eq_ok {x : Except ε α} {f : α → Except ε β} {r : β} :
    (x >>= f) = .ok r ↔ ∃ a, x = .ok a ∧ f a = .ok r := by
  cases x <;> simp [bind, Except.bind]

theorem mapError_eq_ok {cause : ε → ε'} {x : Except ε α} {a : α} :
    x.mapError cause = .ok a ↔ x = .ok a := by
  cases x with
  | ok b =>
    change Except.ok b = .ok a ↔ _
    simp
  | error e =>
    change Except.error (cause e) = .ok a ↔ _
    simp

end Results

end LoadBench
