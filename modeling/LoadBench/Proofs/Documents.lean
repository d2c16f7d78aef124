import LoadBench.Proofs.Sections
import LoadBench.Proofs.Validity

/-!
# Configurations of documents

A document describes a configuration key by key. What is accepted has exactly the lines of the
document, few and short enough, constants that pass their checks after they were rounded, and
averages of at least one reading. What does not fit refuses the document; the averages alone are
looked at after all of it was read.
-/

namespace LoadBench

open Toml (Value Entries)

/-! ## Items -/

namespace Item

variable {σ α : Type}

def of (key : String) (read? : Value → Option α) (get : σ → α) (set : α → σ → σ) : Item σ where
  key
  Content := α
  get
  set
  Means v a := read? v = some a

theorem setBy_of (key : String) (read? : Value → Option α) (get : σ → α) (set : α → σ → σ) :
    (of key read? get set).SetBy (.of key read? set) := by
  refine ⟨rfl, fun v s s' => ?_⟩
  unfold of Slot.of
  dsimp only
  cases read? v with
  | none => simp
  | some a => simp [eq_comm]

/-- An item that is read as a whole, or refused for a cause. -/
def ofResult (key : String) (read : Value → Except DocumentError α) (get : σ → α)
    (set : α → σ → σ) : Item σ where
  key
  Content := α
  get
  set
  Means v a := read v = .ok a

theorem setBy_ofResult (key : String) (read : Value → Except DocumentError α) (get : σ → α)
    (set : α → σ → σ) :
    (ofResult key read get set).SetBy ⟨key, fun v s => do return set (← read v) s⟩ := by
  refine ⟨rfl, fun v s s' => except_bind_eq_ok.trans ?_⟩
  refine exists_congr fun a => and_congr_right fun _ => ?_
  exact ⟨fun h => (Except.ok.inj h).symm, fun h => congrArg Except.ok h.symm⟩

end Item

namespace Config

def calibrationItems : List (Item Calibration) :=
  [.of "steps_per_unit" number? (·.stepsPerUnit) fun v c => { c with stepsPerUnit := v },
    .of "scale_divider" number? (·.scaleDivider) fun v c => { c with scaleDivider := v },
    .of "offset" number? (·.offset) fun v c => { c with offset := v }]

theorem calibration_items : ItemsOf calibrationSlots calibrationItems where
  setBy := .cons (Item.setBy_of ..) (.cons (Item.setBy_of ..) (.cons (Item.setBy_of ..) .nil))
  nodup := by decide
  get_set := by simp [calibrationItems, Item.of]
  get_set_of_ne := by simp [calibrationItems, Item.of]
  ext s s' h := by
    cases s; cases s'
    simpa [calibrationItems, Item.of] using h

def items : List (Item Config) :=
  [.of "program" lines? (·.program) fun lines c => { c with program := lines },
    .ofResult "calibration" calibrationOf (·.calibration) fun k c => { c with calibration := k },
    .ofResult "sampling" (Slot.sectionOf samplingSlots "sampling" {}) (·.sampling)
      fun s c => { c with sampling := s },
    .ofResult "procedure" (Slot.sectionOf procedureSlots "procedure" {}) (·.procedure)
      fun p c => { c with procedure := p },
    .of "autostart" truth? (·.autostart) fun b c => { c with autostart := b }]

theorem config_items : ItemsOf slots items where
  setBy := .cons (Item.setBy_of ..) <| .cons (Item.setBy_ofResult ..) <|
    .cons (Item.setBy_ofResult ..) <| .cons (Item.setBy_ofResult ..) <|
    .cons (Item.setBy_of ..) .nil
  nodup := by decide
  get_set := by simp [items, Item.of, Item.ofResult]
  get_set_of_ne := by simp [items, Item.of, Item.ofResult]
  ext s s' h := by
    cases s; cases s'
    simpa [items, Item.of, Item.ofResult] using h

/-! ## Values -/

/-- A line of a program is read exactly from a text that is short enough. -/
theorem line?_eq_some {v : Value} {line : String} :
    line? v = some line ↔ v = .string line ∧ line.utf8ByteSize ≤ maxLineBytes := by
  unfold line?
  split
  · next s =>
    rw [byteSize_eq, String.ofList_toList]
    split
    · next hfits =>
      simp only [Option.some.injEq, Toml.Value.string.injEq]
      exact ⟨fun heq => ⟨heq, heq ▸ hfits⟩, And.left⟩
    · next hlong =>
      simp only [reduceCtorEq, Toml.Value.string.injEq, false_iff, not_and]
      exact fun heq => heq ▸ hlong
  · next hother =>
    simp only [reduceCtorEq, false_iff, not_and]
    exact fun heq => absurd heq (hother line)

/-- The lines are read exactly from texts that are all short enough, in their order. -/
theorem mapM_line?_eq_some {vs : List Value} {lines : List String} :
    vs.mapM line? = some lines ↔
      vs = lines.map .string ∧ ∀ line ∈ lines, line.utf8ByteSize ≤ maxLineBytes := by
  induction vs generalizing lines with
  | nil => cases lines <;> simp
  | cons v vs ih =>
    rw [List.mapM_cons]
    constructor
    · intro h
      obtain ⟨line, hline, h⟩ := Option.bind_eq_some_iff.1 h
      obtain ⟨lines', hlines, h⟩ := Option.bind_eq_some_iff.1 h
      cases h
      obtain ⟨rfl, hfits⟩ := line?_eq_some.1 hline
      obtain ⟨rfl, hall⟩ := ih.1 hlines
      exact ⟨rfl, List.forall_mem_cons.2 ⟨hfits, hall⟩⟩
    · rintro ⟨hvs, hall⟩
      cases lines with
      | nil => cases hvs
      | cons line lines =>
        obtain ⟨rfl, rfl⟩ := List.cons.inj hvs
        obtain ⟨hfits, hall⟩ := List.forall_mem_cons.1 hall
        exact Option.bind_eq_some_iff.2 ⟨line, line?_eq_some.2 ⟨rfl, hfits⟩,
          Option.bind_eq_some_iff.2 ⟨lines, ih.2 ⟨rfl, hall⟩, rfl⟩⟩

/-- The lines that a value gives are all the strings of its array, if they are few and short. -/
theorem lines?_eq_some {v : Value} {lines : List String} :
    lines? v = some lines ↔ v = .array (lines.map .string) ∧ lines.length ≤ maxLines ∧
      ∀ line ∈ lines, line.utf8ByteSize ≤ maxLineBytes := by
  unfold lines?
  split
  · next vs =>
    rw [Toml.Value.array.injEq]
    split
    · next hfew =>
      rw [mapM_line?_eq_some]
      refine and_congr_right fun hvs => (and_iff_right ?_).symm
      rwa [hvs, List.length_map] at hfew
    · next hmany =>
      simp only [reduceCtorEq, false_iff, not_and]
      rintro rfl hfew
      rw [List.length_map] at hmany
      exact absurd hfew hmany
  · next hother =>
    simp only [reduceCtorEq, false_iff]
    exact fun h => hother _ h.1

/-- What is so of a number after its key was given, or not. -/
abbrev NumberGiven (before : Single) (v : Option Value) (x : Single) : Prop :=
  Given (fun v x => number? v = some x) before v x

def constantEntries (v : Value) : Option Entries :=
  sectionEntries ["steps_per_unit", "scale_divider", "offset"] v

/-- The constants are accepted exactly when they are valid. -/
theorem ofConstants_eq_ok {u d o : Single} {k : Calibration} :
    Calibration.ofConstants u d o = .ok k ↔ k = ⟨u, d, o⟩ ∧ k.Valid := by
  constructor
  · intro h
    refine ⟨?_, Calibration.ofConstants_valid h⟩
    obtain ⟨_, _, h⟩ := except_bind_eq_ok.1 h
    obtain ⟨_, _, h⟩ := except_bind_eq_ok.1 h
    exact (Except.ok.inj h).symm
  · rintro ⟨rfl, hvalid⟩
    exact except_bind_eq_ok.2 ⟨(), Calibration.checkStepsPerUnit_eq_ok.2
      ⟨hvalid.stepsPerUnit_pos, hvalid.stepsPerUnit_finite⟩, except_bind_eq_ok.2
      ⟨(), Calibration.checkScaleDivider_eq_ok.2
        ⟨hvalid.scaleDivider_ne_zero, hvalid.scaleDivider_finite⟩, rfl⟩⟩

/-- The constants of a document are its numbers, each rounded to a single, and pass their checks. -/
theorem calibrationOf_eq_ok {v : Value} (hv : v.Keyed) {k : Calibration} :
    calibrationOf v = .ok k ↔ ∃ es, constantEntries v = some es ∧
      NumberGiven 80 (es.lookup "steps_per_unit") k.stepsPerUnit ∧
      NumberGiven 1 (es.lookup "scale_divider") k.scaleDivider ∧
      NumberGiven 0 (es.lookup "offset") k.offset ∧ k.Valid := by
  have hchecked (k' : Calibration) :
      (Calibration.ofConstants k'.stepsPerUnit k'.scaleDivider k'.offset).mapError
        DocumentError.refused = .ok k ↔ k' = k ∧ k.Valid := by
    rw [mapError_eq_ok, ofConstants_eq_ok, eq_comm]
  unfold calibrationOf
  rw [except_bind_eq_ok]
  simp only [hchecked, calibration_items.sectionOf_eq_ok hv]
  constructor
  · rintro ⟨k', ⟨es, hes, hall⟩, rfl, hvalid⟩
    simp only [calibrationItems, List.forall_mem_cons] at hall
    obtain ⟨hsteps, hdivider, hoffset, _⟩ := hall
    exact ⟨es, hes, hsteps, hdivider, hoffset, hvalid⟩
  · rintro ⟨es, hes, hsteps, hdivider, hoffset, hvalid⟩
    refine ⟨k, ⟨es, hes, ?_⟩, rfl, hvalid⟩
    simp only [calibrationItems, List.forall_mem_cons]
    exact ⟨hsteps, hdivider, hoffset, nofun⟩

/-! ## Descriptions -/

/-- A document describes a configuration: each of its keys gives what it stands for, and what it
does not mention is as it is by default. -/
structure Describes (es : Entries) (c : Config) : Prop where
  program : Given (fun v lines => lines? v = some lines) [] (es.lookup "program") c.program
  calibration : Given (fun v k => calibrationOf v = .ok k) .initial (es.lookup "calibration")
    c.calibration
  sampling : Given (fun v s => Slot.sectionOf samplingSlots "sampling" {} v = .ok s) {}
    (es.lookup "sampling") c.sampling
  procedure : Given (fun v p => Slot.sectionOf procedureSlots "procedure" {} v = .ok p) {}
    (es.lookup "procedure") c.procedure
  autostart : Given (fun v b => truth? v = some b) false (es.lookup "autostart") c.autostart

theorem ofEntries_eq_ok {es : Entries} (hes : es.Keyed) {c : Config} :
    ofEntries es = .ok c ↔ Describes es c := by
  rw [ofEntries, config_items.entries_eq_ok hes.nodup]
  simp only [items, List.forall_mem_cons]
  constructor
  · rintro ⟨hprogram, hcalibration, hsampling, hprocedure, hautostart, _⟩
    exact ⟨hprogram, hcalibration, hsampling, hprocedure, hautostart⟩
  · rintro ⟨hprogram, hcalibration, hsampling, hprocedure, hautostart⟩
    exact ⟨hprogram, hcalibration, hsampling, hprocedure, hautostart, nofun⟩

section

variable {es : Entries} {c : Config}

theorem initial_valid : Calibration.initial.Valid :=
  Calibration.ofConstants_valid (show Calibration.ofConstants 80 1 0 = .ok .initial from rfl)

def constant? (es : Entries) (key : String) : Option Value := do
  (← constantEntries (← es.lookup "calibration")).lookup key

/-- The constants that a document describes are its numbers, and pass their checks. -/
theorem Describes.constants (h : Describes es c) (hes : es.Keyed) :
    NumberGiven 80 (constant? es "steps_per_unit") c.calibration.stepsPerUnit ∧
    NumberGiven 1 (constant? es "scale_divider") c.calibration.scaleDivider ∧
    NumberGiven 0 (constant? es "offset") c.calibration.offset ∧ c.calibration.Valid := by
  have hcalibration := h.calibration
  unfold constant?
  cases hv : es.lookup "calibration" with
  | none =>
    rw [hv] at hcalibration
    rw [show c.calibration = .initial from hcalibration]
    exact ⟨rfl, rfl, rfl, initial_valid⟩
  | some v =>
    rw [hv] at hcalibration
    obtain ⟨inner, hinner, hnumbers⟩ := (calibrationOf_eq_ok (hes.of_lookup hv)).1 hcalibration
    simp only [Option.bind_eq_bind, Option.bind_some, hinner]
    exact hnumbers

/-- The lines that a document describes are those it has, and they are few and short. -/
theorem Describes.lines (h : Describes es c) :
    Given (fun v lines => v = .array (lines.map .string)) [] (es.lookup "program") c.program ∧
    c.program.length ≤ maxLines ∧ ∀ line ∈ c.program, line.utf8ByteSize ≤ maxLineBytes := by
  have hprogram := h.program
  cases hv : es.lookup "program" with
  | none =>
    rw [hv] at hprogram
    rw [show c.program = [] from hprogram]
    exact ⟨rfl, Nat.zero_le _, nofun⟩
  | some v =>
    rw [hv] at hprogram
    exact lines?_eq_some.1 hprogram

/-! ## Texts -/

/-- Constants that pass their checks leave the averages to be looked at. -/
theorem validate_of_valid (h : c.calibration.Valid) :
    c.validate = if c.sampling.readings = 0 then .error (.zeroReadings .perSample)
      else if c.procedure.readings = 0 then .error (.zeroReadings .perMeasurement) else .ok () := by
  have hsteps : Calibration.checkStepsPerUnit c.calibration.stepsPerUnit = .ok () :=
    Calibration.checkStepsPerUnit_eq_ok.2 ⟨h.stepsPerUnit_pos, h.stepsPerUnit_finite⟩
  have hdivider : Calibration.checkScaleDivider c.calibration.scaleDivider = .ok () :=
    Calibration.checkScaleDivider_eq_ok.2 ⟨h.scaleDivider_ne_zero, h.scaleDivider_finite⟩
  rw [validate, hsteps, hdivider]
  split <;> split <;> rfl

variable {read? : Toml.Reader} {text : String}

theorem ofTextBy_of_read? (h : read? text = some es) :
    ofTextBy read? text = do
      let c ← (ofEntries es).mapError .document
      c.validate.mapError .setting
      return c := by
  rw [ofTextBy, h]
  rfl

theorem ofTextBy_of_error {e : DocumentError} (htree : read? text = some es)
    (h : ofEntries es = .error e) : ofTextBy read? text = .error (.document e) := by
  rw [ofTextBy_of_read? htree, h]
  rfl

/-- A document that describes a configuration is accepted unless an average has no reading. -/
theorem ofTextBy_of_describes (hread : read?.Lawful) (htree : read? text = some es)
    (h : Describes es c) :
    ofTextBy read? text =
      if c.sampling.readings = 0 then .error (.setting (.zeroReadings .perSample))
      else if c.procedure.readings = 0 then .error (.setting (.zeroReadings .perMeasurement))
      else .ok c := by
  have hkeyed := hread.keyed text es htree
  have hvalidate := validate_of_valid (h.constants hkeyed).2.2.2
  rw [ofTextBy_of_read? htree, (ofEntries_eq_ok hkeyed).2 h]
  change (c.validate.mapError ConfigError.setting >>= fun _ => pure c) = _
  rw [hvalidate]
  split
  · rfl
  · split <;> rfl

/-- A document that describes no configuration is refused as a document. -/
theorem ofTextBy_of_not_describes (hread : read?.Lawful) (htree : read? text = some es)
    (h : ∀ c, ¬ Describes es c) : ∃ e, ofTextBy read? text = .error (.document e) := by
  cases hes : ofEntries es with
  | ok c => exact absurd ((ofEntries_eq_ok (hread.keyed text es htree)).1 hes) (h c)
  | error e => exact ⟨e, ofTextBy_of_error htree hes⟩

/-- All that can come of a text. -/
theorem ofTextBy_cases (hread : read?.Lawful) (text : String) :
    (∃ e, ofTextBy read? text = .error (.document e)) ∨
      ∃ es c, read? text = some es ∧ Describes es c := by
  cases htree : read? text with
  | none =>
    refine .inl ⟨.malformed, ?_⟩
    rw [ofTextBy, htree]
    rfl
  | some es =>
    by_cases h : ∃ c, Describes es c
    · obtain ⟨c, hc⟩ := h
      exact .inr ⟨es, c, rfl, hc⟩
    · exact .inl (ofTextBy_of_not_describes hread htree (not_exists.1 h))

/-- A configuration is accepted exactly when the document describes it and both sections ask for at
least one reading. -/
theorem ofTextBy_eq_ok (hread : read?.Lawful) :
    ofTextBy read? text = .ok c ↔ ∃ es, read? text = some es ∧ Describes es c ∧
      1 ≤ c.sampling.readings ∧ 1 ≤ c.procedure.readings := by
  constructor
  · intro hok
    rcases ofTextBy_cases hread text with ⟨e, he⟩ | ⟨es, c', htree, hdescribes⟩
    · rw [hok] at he
      cases he
    · rw [ofTextBy_of_describes hread htree hdescribes] at hok
      split at hok
      · cases hok
      split at hok
      · cases hok
      · cases hok
        exact ⟨es, htree, hdescribes, by omega, by omega⟩
  · rintro ⟨es, htree, hdescribes, hsample, hmeasurement⟩
    rw [ofTextBy_of_describes hread htree hdescribes, if_neg (by omega), if_neg (by omega)]

/-- Of all settings only the averages are looked at after the document was read. -/
theorem exists_of_ofTextBy_eq_setting (hread : read?.Lawful) {e : SettingError}
    (h : ofTextBy read? text = .error (.setting e)) : ∃ count, e = .zeroReadings count := by
  rcases ofTextBy_cases hread text with ⟨e', he'⟩ | ⟨es, c, htree, hdescribes⟩
  · rw [h] at he'
    cases he'
  · rw [ofTextBy_of_describes hread htree hdescribes] at h
    split at h
    · cases h
      exact ⟨.perSample, rfl⟩
    split at h
    · cases h
      exact ⟨.perMeasurement, rfl⟩
    · cases h

/-- A document with a fault in its program or in a scale factor. -/
inductive Unfit (es : Entries) : Prop where
  /-- The program is no array of lines, or has too many of them, or too long ones. -/
  | program {v : Value} (hv : es.lookup "program" = some v)
    (hlines : ∀ lines : List String, v = .array (lines.map .string) →
      128 < lines.length ∨ ∃ line ∈ lines, 64 < line.utf8ByteSize)
  /-- The steps per unit are no number, or one that is not positive and finite once rounded. -/
  | stepsPerUnit {v : Value} (hv : constant? es "steps_per_unit" = some v)
    (hbad : ∀ x, number? v = some x → ¬ (0 < x ∧ x.isFinite))
  /-- The scale divider is no number, or one that is zero or not finite once rounded. -/
  | scaleDivider {v : Value} (hv : constant? es "scale_divider" = some v)
    (hbad : ∀ x, number? v = some x → ¬ (x != 0 ∧ x.isFinite))

/-- What is unfit describes no configuration. -/
theorem Unfit.not_describes (h : Unfit es) (hes : es.Keyed) (c : Config) : ¬ Describes es c := by
  intro hc
  obtain ⟨hsteps, hdivider, _, hvalid⟩ := hc.constants hes
  cases h with
  | program hv hlines =>
    obtain ⟨hprogram, hfew, hshort⟩ := hc.lines
    rw [hv] at hprogram
    rcases hlines _ hprogram with hmany | ⟨line, hline, hlong⟩
    · exact absurd hfew (Nat.not_le.2 hmany)
    · exact absurd (hshort line hline) (Nat.not_le.2 hlong)
  | stepsPerUnit hv hbad =>
    rw [hv] at hsteps
    exact hbad _ hsteps ⟨hvalid.stepsPerUnit_pos, hvalid.stepsPerUnit_finite⟩
  | scaleDivider hv hbad =>
    rw [hv] at hdivider
    exact hbad _ hdivider ⟨hvalid.scaleDivider_ne_zero, hvalid.scaleDivider_finite⟩

/-- The constants of a document are numbers that fail a check, and what stands before them is not at
fault. -/
def RefusesConstants (es : Entries) (e : SettingError) : Prop :=
  ∃ before v after c k, es = before ++ ("calibration", v) :: after ∧ ofEntries before = .ok c ∧
    Slot.sectionOf calibrationSlots "calibration" .initial v = .ok k ∧
    Calibration.ofConstants k.stepsPerUnit k.scaleDivider k.offset = .error e

/-- Constants out of range are reported by the first check that they fail. -/
theorem RefusesConstants.ofEntries_eq {e : SettingError} (h : RefusesConstants es e) :
    ofEntries es = .error (.refused e) := by
  obtain ⟨before, v, after, c, k, rfl, hbefore, hsection, hrefused⟩ := h
  have hcalibration : calibrationOf v = .error (.refused e) := by
    unfold calibrationOf
    rw [hsection]
    change (Calibration.ofConstants k.stepsPerUnit k.scaleDivider k.offset).mapError _ = _
    rw [hrefused]
    rfl
  have hentry : Slot.entry slots c ("calibration", v) = .error (.refused e) := by
    rw [config_items.entry_eq_put (List.mem_cons_of_mem _ List.mem_cons_self)]
    change (calibrationOf v >>= _) = _
    rw [hcalibration]
    rfl
  unfold ofEntries Slot.entries at hbefore ⊢
  rw [List.foldlM_append, hbefore]
  change (Slot.entry slots c ("calibration", v) >>= _) = _
  rw [hentry]
  rfl

/-- A configuration that a bench can use, with the program and the constants of a document. -/
structure Usable (es : Entries) (c : Config) : Prop where
  program : Given (fun v lines => v = .array (lines.map .string)) [] (es.lookup "program") c.program
  lines : c.program.length ≤ 128
  lineBytes : ∀ line ∈ c.program, line.utf8ByteSize ≤ 64
  stepsPerUnit : NumberGiven 80 (constant? es "steps_per_unit") c.calibration.stepsPerUnit
  scaleDivider : NumberGiven 1 (constant? es "scale_divider") c.calibration.scaleDivider
  offset : NumberGiven 0 (constant? es "offset") c.calibration.offset
  constants : c.calibration.Valid
  sampleReadings : 1 ≤ c.sampling.readings
  measurementReadings : 1 ≤ c.procedure.readings
  validate : c.validate = .ok ()

theorem Describes.usable_iff (h : Describes es c) (hes : es.Keyed) :
    Usable es c ↔ 1 ≤ c.sampling.readings ∧ 1 ≤ c.procedure.readings := by
  constructor
  · intro husable
    exact ⟨husable.sampleReadings, husable.measurementReadings⟩
  · rintro ⟨hsample, hmeasurement⟩
    obtain ⟨hprogram, hlines, hbytes⟩ := h.lines
    obtain ⟨hsteps, hdivider, hoffset, hvalid⟩ := h.constants hes
    refine ⟨hprogram, hlines, hbytes, hsteps, hdivider, hoffset, hvalid, hsample, hmeasurement, ?_⟩
    rw [validate_of_valid hvalid, if_neg (by omega), if_neg (by omega)]

end

/-- Whoever reads documents, as long as no key comes twice: a text is accepted exactly if it is a
document that describes the configuration, which then is usable and has the program of the document.
A document with a fault in its program or in a scale factor is refused as a document; if its constants
fail a check and nothing before them is at fault, for this check. Once a document was read, only
averages are refused. -/
theorem text_usable (read? : Toml.Reader) (hread : read?.Lawful) (text : String) :
    (∀ c, ofTextBy read? text = .ok c ↔
      ∃ es, read? text = some es ∧ Describes es c ∧ Usable es c) ∧
    (∀ es c, read? text = some es → Describes es c →
      (Usable es c ↔ 1 ≤ c.sampling.readings ∧ 1 ≤ c.procedure.readings)) ∧
    (∀ es, read? text = some es → Unfit es → ∃ e, ofTextBy read? text = .error (.document e)) ∧
    (∀ es e, read? text = some es → RefusesConstants es e →
      ofTextBy read? text = .error (.document (.refused e))) ∧
    ∀ e, ofTextBy read? text = .error (.setting e) → ∃ count, e = .zeroReadings count := by
  have hkeyed (es : Entries) (htree : read? text = some es) : es.Keyed := hread.keyed text es htree
  refine ⟨fun c => ?_, fun es c htree hdescribes => ?_, fun es htree hunfit => ?_,
    fun es e htree hrefuses => ?_, fun e he => exists_of_ofTextBy_eq_setting hread he⟩
  · rw [ofTextBy_eq_ok hread]
    refine exists_congr fun es => and_congr_right fun htree => and_congr_right fun hdescribes => ?_
    exact (hdescribes.usable_iff (hkeyed es htree)).symm
  · exact hdescribes.usable_iff (hkeyed es htree)
  · exact ofTextBy_of_not_describes hread htree (hunfit.not_describes (hkeyed es htree))
  · exact ofTextBy_of_error htree hrefuses.ofEntries_eq

/-- One line makes a usable bench. Infinite steps per unit refuse a document. -/
theorem oneLine_usable_infiniteSteps_refused :
    ofText "program=[\"G01 X5\"]" = .ok { program := ["G01 X5"] } ∧
    ofText "calibration.steps_per_unit=inf" = .error (.document (.refused
      (.invalidScaleFactor .stepsPerUnit (Numeral.infinity false).toSingle))) := by
  have hline : Toml.read? "program=[\"G01 X5\"]" =
      some [("program", .array [.string "G01 X5"])] := rfl
  have hsteps : Toml.read? "calibration.steps_per_unit=inf" = some [("calibration",
      .table .dotted [("steps_per_unit", .float (Numeral.infinity false).toDouble)])] := rfl
  have hdescribes : Describes [("program", .array [.string "G01 X5"])] { program := ["G01 X5"] } :=
    ⟨lines?_eq_some.2 ⟨rfl, by decide⟩, rfl, rfl, rfl, rfl⟩
  obtain ⟨haccepted, husable, _⟩ :=
    text_usable Toml.read? Toml.read?_lawful "program=[\"G01 X5\"]"
  obtain ⟨_, _, _, hrefused, _⟩ :=
    text_usable Toml.read? Toml.read?_lawful "calibration.steps_per_unit=inf"
  constructor
  · exact (haccepted _).2 ⟨_, hline, hdescribes, (husable _ _ hline hdescribes).2 (by decide)⟩
  · exact hrefused _ _ hsteps ⟨[], _, [], {}, { Calibration.initial with
      stepsPerUnit := (Numeral.infinity false).toSingle }, rfl, rfl, rfl, rfl⟩

end Config

end LoadBench
