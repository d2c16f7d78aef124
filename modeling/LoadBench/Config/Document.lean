import LoadBench.Config.Basic
import LoadBench.Toml.Document

/-!
# Configuration documents

A configuration is written in TOML. Every key is optional, and keys that mean nothing are passed
over. Keys are read in the order of the document; the first that does not fit refuses it. A section
may also be written as an array of its values in their fixed order.
-/

namespace LoadBench

open Toml (Value Entries)

/-- A key that a section knows, and what its value changes there. -/
structure Slot (σ : Type) where
  key : String
  put : Value → σ → Except DocumentError σ

namespace Slot

variable {σ : Type}

def of {α : Type} (key : String) (read? : Value → Option α) (put : α → σ → σ) : Slot σ where
  key
  put := fun v s => match read? v with
    | some a => .ok (put a s)
    | none => .error (.unfit key)

def entry (slots : List (Slot σ)) (s : σ) (e : String × Value) : Except DocumentError σ :=
  match slots.find? (·.key = e.1) with
  | some slot => slot.put e.2 s
  | none => .ok s

def entries (slots : List (Slot σ)) (s : σ) (es : Entries) : Except DocumentError σ :=
  es.foldlM (entry slots) s

/-- A section after the values of an array; those beyond the last slot are passed over. -/
def positions (slots : List (Slot σ)) (s : σ) (vs : List Value) : Except DocumentError σ :=
  (slots.zip vs).foldlM (fun s (slot, v) => slot.put v s) s

/-- The section that a value describes; what it does not mention is as in `s`. A date describes an
empty section. -/
def sectionOf (slots : List (Slot σ)) (key : String) (s : σ) : Value → Except DocumentError σ
  | .table _ es => entries slots s es
  | .array vs => positions slots s vs
  | .datetime => .ok s
  | _ => .error (.unfit key)

end Slot

namespace Config

def number? : Value → Option Single
  | .integer n => some (.ofInt n)
  | .float x => some x.narrow
  | _ => none

def count? (most : Nat) : Value → Option Nat
  | .integer n => if 0 ≤ n ∧ n ≤ most then some n.toNat else none
  | _ => none

def truth? : Value → Option Bool
  | .boolean b => some b
  | _ => none

def maxLines : Nat := 128

def maxLineBytes : Nat := 64

def line? : Value → Option String
  | .string s => if byteSize s.toList ≤ maxLineBytes then some s else none
  | _ => none

def lines? : Value → Option (List String)
  | .array vs => if vs.length ≤ maxLines then vs.mapM line? else none
  | _ => none

def calibrationSlots : List (Slot Calibration) :=
  [.of "steps_per_unit" number? fun v c => { c with stepsPerUnit := v },
    .of "scale_divider" number? fun v c => { c with scaleDivider := v },
    .of "offset" number? fun v c => { c with offset := v }]

def samplingSlots : List (Slot Sampling) :=
  [.of "readings_per_sample" (count? 0xFFFFFFFF) fun n s => { s with readings := n },
    .of "poll_interval_us" (count? 0xFFFFFFFFFFFFFFFF) fun n s => { s with pollMicros := n }]

def procedureSlots : List (Slot Procedure) :=
  [.of "readings" (count? 0xFFFFFFFF) fun n p => { p with readings := n },
    .of "reading_spacing_ms" (count? 0xFFFFFFFF) fun n p => { p with spacingMillis := n },
    .of "input_poll_ms" (count? 0xFFFFFFFF) fun n p => { p with pollMillis := n }]

/-- The constants of a document pass their checks before the rest of it is read. -/
def calibrationOf (v : Value) : Except DocumentError Calibration := do
  let c ← Slot.sectionOf calibrationSlots "calibration" .initial v
  (Calibration.ofConstants c.stepsPerUnit c.scaleDivider c.offset).mapError .refused

def slots : List (Slot Config) :=
  [.of "program" lines? fun lines c => { c with program := lines },
    ⟨"calibration", fun v c => do return { c with calibration := ← calibrationOf v }⟩,
    ⟨"sampling", fun v c => do
      return { c with sampling := ← Slot.sectionOf samplingSlots "sampling" {} v }⟩,
    ⟨"procedure", fun v c => do
      return { c with procedure := ← Slot.sectionOf procedureSlots "procedure" {} v }⟩,
    .of "autostart" truth? fun b c => { c with autostart := b }]

def ofEntries (es : Entries) : Except DocumentError Config := Slot.entries slots {} es

/-- The configuration that a text describes, if its settings are in range. The tree of the text is
what a reader of documents finds in it. -/
def ofTextBy (read? : Toml.Reader) (text : String) : Except ConfigError Config := do
  let es ← ((read? text).elim (.error .malformed) .ok : Except DocumentError Entries).mapError
    .document
  let c ← (ofEntries es).mapError .document
  c.validate.mapError .setting
  return c

def ofText (text : String) : Except ConfigError Config := ofTextBy Toml.read? text

def ofFile (content : Except FileError ByteArray) : Except ConfigError Config := do
  let bytes ← content.mapError .file
  match String.fromUTF8? bytes with
  | some text => ofText text
  | none => .error (.file .notText)

end Config

end LoadBench
