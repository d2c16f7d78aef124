import LoadBench.Command.Line
import LoadBench.Proofs.Keys

/-!
# How a line may be written

A command is settled by its opcode and the text that is given for each field. Neither the order of
the fields nor the blanks around opcode, keys and values make a difference.
-/

namespace LoadBench

/-! ## Fields with the same values -/

theorem FieldValue.ofText_trim (text : List Char) : ofText (trim text) = ofText text := by
  rw [ofText, trim_trim, ofText]

namespace Fields

variable {fields fields' : Fields}

theorem value_congr {k : Field} (h : (fields k).map trim = (fields' k).map trim) :
    fields.value k = fields'.value k := by
  cases htext : fields k with
  | none =>
    cases htext' : fields' k with
    | none => rw [value, value, htext, htext']
    | some text' => simp [htext, htext'] at h
  | some text =>
    cases htext' : fields' k with
    | none => simp [htext, htext'] at h
    | some text' =>
      have htrim : trim text = trim text' := by simpa [htext, htext'] using h
      simp only [value, htext, htext']
      rw [← FieldValue.ofText_trim, htrim, FieldValue.ofText_trim]

theorem number?_congr (h : fields.value = fields'.value) : fields.number? = fields'.number? := by
  funext k
  rw [number?, h, number?]

theorem number_congr (h : fields.value = fields'.value) : fields.number = fields'.number := by
  funext k
  rw [number, number?_congr h, number]

end Fields

/-- A command reads its fields by their values. -/
theorem Command.ofFields_congr {fields fields' : Fields} (h : fields.value = fields'.value)
    (opcode : Opcode) : ofFields fields opcode = ofFields fields' opcode := by
  have hnumber? := Fields.number?_congr h
  have hnumber := Fields.number_congr h
  cases opcode <;> simp only [ofFields, configuration, hnumber?, hnumber]

/-! ## Trimmed bodies -/

theorem trimEnd_append_key (cs : List Char) (k : Field) :
    trimEnd (cs ++ k.key) = cs ++ k.key := by
  have hkey : trimEnd k.key = k.key := by cases k <;> decide
  rw [trimEnd_append, hkey, if_neg k.key_ne_nil]

theorem Keyless.trimEnd {v : List Char} (h : Keyless v) : Keyless (trimEnd v) := by
  obtain ⟨bs, _, hv⟩ := exists_eq_trimEnd_append v
  intro c hc
  refine h c ?_
  rw [hv]
  exact List.mem_append_left bs hc

/-- Trimming a body shortens the text after its last key, or what stands there without a key. -/
theorem Body.exists_trimmed (b : Body) (h : ∀ c ∈ b.lead, isBlank c) :
    ∃ b' : Body, b'.chars = LoadBench.trimEnd b.chars ∧
      ∀ k, (b'.text k).map trim = (b.text k).map trim := by
  obtain ⟨lead, segments, hlead, hsegments, hnodup⟩ := b
  -- A key has no blank at its end, so trimming stops there at the latest.
  rcases List.eq_nil_or_concat segments with rfl | ⟨front, ⟨j, v⟩, rfl⟩
  · refine ⟨⟨[], [], nofun, nofun, .nil⟩, ?_, fun k => rfl⟩
    change [] = LoadBench.trimEnd (lead ++ [])
    rw [List.append_nil, trimEnd_of_blank h]
  · rw [List.concat_eq_append] at hsegments hnodup
    refine ⟨⟨lead, front ++ [(j, LoadBench.trimEnd v)], hlead, ?_, ?_⟩, ?_, fun k => ?_⟩
    · intro s hs
      rcases List.mem_append.1 hs with hs | hs
      · exact hsegments s (List.mem_append_left _ hs)
      · rw [List.mem_singleton.1 hs]
        exact (hsegments (j, v) (by simp)).trimEnd
    · simpa using hnodup
    · have hchars : ∀ u, lead ++ Segments.chars (front ++ [(j, u)]) =
          (lead ++ Segments.chars front ++ j.key) ++ u := by
        intro u
        simp [Segments.chars]
      simp only [Body.chars, List.concat_eq_append, hchars]
      rw [trimEnd_append_of_trimEnd_eq (trimEnd_append_key _ j)]
    · simp only [Body.text, List.concat_eq_append, List.lookup_append, Option.map_or]
      rw [List.lookup_cons, List.lookup_cons]
      split
      · rw [Option.map_some, Option.map_some, trim_trimEnd]
      · rfl

/-! ## Written lines -/

abbrev Blanks := { cs : List Char // cs.all isBlank }

abbrev ValueText := { cs : List Char // Keyless cs }

theorem Blanks.isBlank_of_mem (bs : Blanks) : ∀ c ∈ bs.val, isBlank c :=
  List.all_eq_true.1 bs.property

theorem Blanks.keyless (bs : Blanks) : Keyless bs.val := by
  have hinitials : Field.initials.all fun c => !isBlank c := by decide
  intro c hc hinitial
  have hnot := List.all_eq_true.1 hinitials c hinitial
  rw [bs.isBlank_of_mem c hc] at hnot
  cases hnot

structure WrittenField where
  field : Field
  gap : Blanks
  text : ValueText
  tail : Blanks

def WrittenField.value (f : WrittenField) : List Char := f.gap.val ++ f.text.val ++ f.tail.val

theorem WrittenField.trim_value (f : WrittenField) : trim f.value = trim f.text.val := by
  rw [value, trim_append_blank f.tail.isBlank_of_mem, trim_blank_append f.gap.isBlank_of_mem]

theorem WrittenField.keyless_value (f : WrittenField) : Keyless f.value :=
  (f.gap.keyless.append f.text.property).append f.tail.keyless

/-- A line as it is written: blanks, its opcode, blanks, and fields in some order, each once. -/
structure WrittenLine where
  margin : Blanks
  opcode : Opcode
  lead : Blanks
  items : List WrittenField
  nodup : (items.map WrittenField.field).Nodup

namespace WrittenLine

variable {w w' : WrittenLine}

def rest (w : WrittenLine) : List Char :=
  w.lead.val ++ w.items.flatMap fun f => f.field.key ++ f.value

def line (w : WrittenLine) : String :=
  .ofList (w.margin.val ++ (w.opcode.name.toList ++ w.rest))

def assignment (w : WrittenLine) : List (Field × List Char) :=
  w.items.map fun f => (f.field, f.text.val)

/-- The trimmed text that is given for a field. -/
def fields (w : WrittenLine) : Fields := fun k => (w.assignment.lookup k).map trim

theorem nodup_assignment (w : WrittenLine) : (w.assignment.map Prod.fst).Nodup := by
  rw [assignment, List.map_map]
  exact w.nodup

/-- A field is looked up as it is written. -/
theorem lookup_assignment {k : Field} {text : List Char} :
    w.assignment.lookup k = some text ↔ (k, text) ∈ w.assignment := by
  rw [List.lookup_eq_some_iff]
  constructor
  · rintro ⟨front, back, hsplit, _⟩
    rw [hsplit]
    simp
  · intro hmem
    obtain ⟨front, back, hsplit⟩ := List.mem_iff_append.1 hmem
    refine ⟨front, back, hsplit, fun p hp => ?_⟩
    have hnodup := w.nodup_assignment
    rw [hsplit, List.map_append, List.map_cons, List.nodup_append] at hnodup
    have hne := hnodup.2.2 _ (List.mem_map_of_mem hp) _ List.mem_cons_self
    simpa using hne.symm

/-- The order of the fields makes no difference to what is given for them. -/
theorem fields_of_perm (h : w'.assignment.Perm w.assignment) : w'.fields = w.fields := by
  funext k
  have hlookup : w'.assignment.lookup k = w.assignment.lookup k := by
    refine Option.ext fun text => ?_
    rw [lookup_assignment, lookup_assignment]
    exact h.mem_iff
  rw [fields, fields, hlookup]

/-! ## Their bodies -/

def segments (w : WrittenLine) : Segments := w.items.map fun f => (f.field, f.value)

theorem rest_eq (w : WrittenLine) : w.rest = w.lead.val ++ w.segments.chars := by
  rw [rest, segments, Segments.chars, List.flatMap_map]

theorem lookup_segments (w : WrittenLine) (k : Field) :
    (w.segments.lookup k).map trim = w.fields k := by
  rw [segments, fields, assignment]
  induction w.items with
  | nil => rfl
  | cons f items ih =>
    rw [List.map_cons, List.map_cons, List.lookup_cons, List.lookup_cons]
    split
    · exact congrArg some f.trim_value
    · exact ih

def body (w : WrittenLine) : Body where
  lead := w.lead.val
  segments := w.segments
  keyless_lead := w.lead.keyless
  keyless_segments := by
    intro s hs
    obtain ⟨f, _, rfl⟩ := List.mem_map.1 hs
    exact f.keyless_value
  nodup := by
    rw [segments, List.map_map]
    exact w.nodup

theorem exists_body (w : WrittenLine) :
    ∃ b : Body, b.chars = trimEnd w.rest ∧ ∀ k, (b.text k).map trim = w.fields k := by
  obtain ⟨b, hchars, htext⟩ := w.body.exists_trimmed w.lead.isBlank_of_mem
  refine ⟨b, ?_, fun k => (htext k).trans (w.lookup_segments k)⟩
  rw [hchars, rest_eq]
  rfl

/-! ## Their commands -/

theorem trim_line (w : WrittenLine) :
    trim (w.margin.val ++ (w.opcode.name.toList ++ w.rest)) =
      w.opcode.name.toList ++ trimEnd w.rest := by
  have hname : trimEnd w.opcode.name.toList = w.opcode.name.toList := by
    cases w.opcode <;> decide
  have hfront : (w.opcode.name.toList ++ w.rest).dropWhile isBlank =
      w.opcode.name.toList ++ w.rest := by
    cases w.opcode <;> rfl
  rw [trim_blank_append w.margin.isBlank_of_mem, trim, hfront, trimEnd_append_of_trimEnd_eq hname]

theorem splitBytes?_name (opcode : Opcode) (body : List Char) :
    splitBytes? 3 (opcode.name.toList ++ body) = some (opcode.name.toList, body) := by
  cases opcode <;> simp [Opcode.name, splitBytes?, Char.utf8Size]

theorem read?_name (opcode : Opcode) : Opcode.read? opcode.name.toList = some opcode := by
  cases opcode <;> rfl

/-- A written line is read as its opcode with the texts that are given. -/
theorem ofLine_line (w : WrittenLine) :
    Command.ofLine w.line = Command.ofFields w.fields w.opcode := by
  obtain ⟨b, hchars, htext⟩ := w.exists_body
  have hvalue : b.text.value = w.fields.value := by
    funext k
    refine Fields.value_congr ?_
    rw [htext k, fields, Option.map_map]
    simp [Function.comp_def]
  rw [Command.ofLine, line, String.toList_ofList, Command.ofChars, trim_line]
  simp only [splitBytes?_name, read?_name]
  rw [← hchars, Body.ofBody_chars]
  exact Command.ofFields_congr hvalue w.opcode

end WrittenLine

/-! ## Commands and their numbers -/

namespace Fields

variable {fields : Fields} {k : Field}

/-- A field holds this number, or is absent if there is none. -/
def Holds (fields : Fields) (k : Field) : Option Single → Prop
  | some x => fields.value k = .number x
  | none => fields.value k = .absent

theorem number?_eq_ok {x : Option Single} : fields.number? k = .ok x ↔ fields.Holds k x := by
  unfold number? Holds
  cases fields.value k <;> cases x <;> simp

theorem number_eq_ok {x : Single} : fields.number k = .ok x ↔ fields.Holds k (some x) := by
  rw [number, except_bind_eq_ok, ← number?_eq_ok]
  constructor
  · rintro ⟨a, ha, hx⟩
    cases a with
    | none => cases hx
    | some a =>
      cases hx
      exact ha
  · exact fun h => ⟨some x, h, rfl⟩

end Fields

namespace Command

/-- The fields hold the numbers of the command. Those that it does not consult may hold anything. -/
def SpelledBy (fields : Fields) : Command → Prop
  | .move target feedrate samples => fields.Holds .x (some target) ∧
      fields.Holds .f (some feedrate) ∧
      ∃ n, fields.Holds .rlc n ∧ samples = (n.map sampleCount).getD 0
  | .wait seconds => fields.Holds .w (some seconds)
  | .replay cycles => ∃ n, fields.Holds .c (some n) ∧ cycles = cycleCount n
  | .constants given => fields.Holds .spi given.stepsPerUnit ∧
      fields.Holds .dlc given.scaleDivider ∧ fields.Holds .olc given.offset ∧
      (given.stepsPerUnit.isSome || given.scaleDivider.isSome || given.offset.isSome)
  | .calibrateLoad reference => fields.Holds .spi none ∧ fields.Holds .dlc none ∧
      fields.Holds .olc none ∧ fields.Holds .rlc (some reference)
  | .calibrateDistance target feedrate => fields.Holds .spi none ∧ fields.Holds .dlc none ∧
      fields.Holds .olc none ∧ fields.Holds .rlc none ∧ fields.Holds .x (some target) ∧
      fields.Holds .f (some feedrate)

/-- A configuring line is accepted exactly as the command that spells its fields. -/
theorem configuration_eq_ok {fields : Fields} {c : Command} :
    configuration fields = .ok c ↔ c.opcode = .configure ∧ c.SpelledBy fields := by
  simp only [configuration, except_bind_eq_ok, Fields.number?_eq_ok]
  constructor
  · rintro ⟨u, hu, d, hd, o, ho, h⟩
    split at h
    · next hgiven =>
      cases h
      exact ⟨rfl, hu, hd, ho, hgiven⟩
    · next hnone =>
      have hnone : u = none ∧ d = none ∧ o = none := by simpa [and_assoc] using hnone
      obtain ⟨rfl, rfl, rfl⟩ := hnone
      obtain ⟨r, hr, h⟩ := except_bind_eq_ok.1 h
      cases r with
      | some reference =>
        cases h
        exact ⟨rfl, hu, hd, ho, Fields.number?_eq_ok.1 hr⟩
      | none =>
        obtain ⟨x, hx, h⟩ := except_bind_eq_ok.1 h
        cases x with
        | none => cases h
        | some target =>
          obtain ⟨feedrate, hf, h⟩ := except_bind_eq_ok.1 h
          cases h
          exact ⟨rfl, hu, hd, ho, Fields.number?_eq_ok.1 hr, Fields.number?_eq_ok.1 hx,
            Fields.number_eq_ok.1 hf⟩
  · rintro ⟨hopcode, hspelled⟩
    cases c with
    | constants given =>
      obtain ⟨hu, hd, ho, hgiven⟩ := hspelled
      refine ⟨_, hu, _, hd, _, ho, ?_⟩
      rw [if_pos hgiven]
      rfl
    | calibrateLoad reference =>
      obtain ⟨hu, hd, ho, hr⟩ := hspelled
      exact ⟨none, hu, none, hd, none, ho,
        except_bind_eq_ok.2 ⟨some reference, Fields.number?_eq_ok.2 hr, rfl⟩⟩
    | calibrateDistance target feedrate =>
      obtain ⟨hu, hd, ho, hr, hx, hf⟩ := hspelled
      exact ⟨none, hu, none, hd, none, ho, except_bind_eq_ok.2 ⟨none, Fields.number?_eq_ok.2 hr,
        except_bind_eq_ok.2 ⟨some target, Fields.number?_eq_ok.2 hx,
          except_bind_eq_ok.2 ⟨feedrate, Fields.number_eq_ok.2 hf, rfl⟩⟩⟩⟩
    | _ => cases hopcode

/-- Fields are read as the command that they spell, if they spell one. -/
theorem ofFields_eq_ok {fields : Fields} {opcode : Opcode} {c : Command} :
    ofFields fields opcode = .ok c ↔ c.opcode = opcode ∧ c.SpelledBy fields := by
  cases opcode with
  | configure => exact configuration_eq_ok
  | move =>
    simp only [ofFields, except_bind_eq_ok, Fields.number_eq_ok, Fields.number?_eq_ok]
    constructor
    · rintro ⟨target, hx, feedrate, hf, n, hn, h⟩
      cases h
      exact ⟨rfl, hx, hf, n, hn, rfl⟩
    · rintro ⟨hopcode, hspelled⟩
      cases c with
      | move target feedrate samples =>
        obtain ⟨hx, hf, n, hn, rfl⟩ := hspelled
        exact ⟨target, hx, feedrate, hf, n, hn, rfl⟩
      | _ => cases hopcode
  | wait =>
    simp only [ofFields, except_bind_eq_ok, Fields.number_eq_ok]
    constructor
    · rintro ⟨seconds, hw, h⟩
      cases h
      exact ⟨rfl, hw⟩
    · rintro ⟨hopcode, hspelled⟩
      cases c with
      | wait seconds => exact ⟨seconds, hspelled, rfl⟩
      | _ => cases hopcode
  | replay =>
    simp only [ofFields, except_bind_eq_ok, Fields.number_eq_ok]
    constructor
    · rintro ⟨n, hn, h⟩
      cases h
      exact ⟨rfl, n, hn, rfl⟩
    · rintro ⟨hopcode, hspelled⟩
      cases c with
      | replay cycles =>
        obtain ⟨n, hn, rfl⟩ := hspelled
        exact ⟨n, hn, rfl⟩
      | _ => cases hopcode

end Command

namespace WrittenLine

/-- What a line asks for is settled by its opcode and the texts of its fields: it is read as exactly
these, however it is written, and gives the command that they spell or the error that they make. -/
theorem line_settled (w : WrittenLine) :
    Command.ofLine w.line = Command.ofFields w.fields w.opcode ∧
    (∀ w' : WrittenLine, w'.opcode = w.opcode → w'.assignment.Perm w.assignment →
      Command.ofLine w'.line = Command.ofLine w.line) ∧
    ∀ c : Command, Command.ofLine w.line = .ok c ↔ c.opcode = w.opcode ∧ c.SpelledBy w.fields := by
  refine ⟨w.ofLine_line, fun w' hopcode hperm => ?_, fun c => ?_⟩
  · rw [ofLine_line, ofLine_line, hopcode, fields_of_perm hperm]
  · rw [ofLine_line]
    exact Command.ofFields_eq_ok

/-- A move without a blank. -/
def terseMove : WrittenLine where
  margin := ⟨[], by decide⟩
  opcode := .move
  lead := ⟨[], by decide⟩
  items := [⟨.x, ⟨[], by decide⟩, ⟨['1', '.', '5'], by decide⟩, ⟨[], by decide⟩⟩,
    ⟨.f, ⟨[], by decide⟩, ⟨['2'], by decide⟩, ⟨[], by decide⟩⟩,
    ⟨.rlc, ⟨[], by decide⟩, ⟨['3'], by decide⟩, ⟨[], by decide⟩⟩]
  nodup := by decide

def spacedMove : WrittenLine where
  margin := ⟨[' '], by decide⟩
  opcode := .move
  lead := ⟨[' '], by decide⟩
  items := [⟨.rlc, ⟨[' '], by decide⟩, ⟨['3'], by decide⟩, ⟨[], by decide⟩⟩,
    ⟨.x, ⟨[], by decide⟩, ⟨['1', '.', '5'], by decide⟩, ⟨['\t'], by decide⟩⟩,
    ⟨.f, ⟨[' '], by decide⟩, ⟨['2'], by decide⟩, ⟨[' '], by decide⟩⟩]
  nodup := by decide

theorem spacedMove_settled : spacedMove.line = " G01 RLC 3X1.5\tF 2 " ∧
    Command.ofLine spacedMove.line = Command.ofLine terseMove.line ∧
    Command.ofLine terseMove.line = .ok (.move 1.5 2 3) := by
  obtain ⟨_, horder, hspelled⟩ := line_settled terseMove
  refine ⟨by decide, horder spacedMove rfl (by decide), ?_⟩
  refine (hspelled _).2 ⟨rfl, ?_, ?_, some 3, ?_, ?_⟩
  · rfl
  · rfl
  · rfl
  · decide +kernel

end WrittenLine

end LoadBench
