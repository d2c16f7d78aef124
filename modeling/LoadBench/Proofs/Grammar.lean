import LoadBench.Proofs.Rational
import LoadBench.Proofs.Spelling

/-!
# What a line is read as

A line that begins with none of the four opcodes is refused for its opcode. Any other is settled by
the fields that its command consults, one after the other: the first that is at fault refuses the
line, and if none is, they are the numbers of the command. What else the line holds is never looked
at.
-/

namespace LoadBench

/-! ## Opcodes -/

theorem Opcode.read?_eq_some {cs : List Char} {opcode : Opcode} :
    Opcode.read? cs = some opcode ↔ cs = opcode.name.toList := by
  constructor
  · intro h
    unfold Opcode.read? at h
    split at h <;> cases h <;> rfl
  · rintro rfl
    exact WrittenLine.read?_name opcode

/-- The text has not three bytes, or they end inside a character, or they are no opcode. -/
def NoOpcode (t : String) : Prop :=
  t.utf8ByteSize < 3 ∨ ¬ (String.Pos.Raw.mk 3).IsValid t ∨
    ∃ front rest, t = front ++ rest ∧ front.utf8ByteSize = 3 ∧ ∀ opcode : Opcode, front ≠ opcode.name

theorem utf8ByteSize_name (opcode : Opcode) : opcode.name.utf8ByteSize = 3 := by
  cases opcode <;> rfl

/-- Two ways to split a text after as many bytes are one. -/
theorem append_inj_of_utf8ByteSize {s t s' t' : String} (h : s ++ t = s' ++ t')
    (hsize : s.utf8ByteSize = s'.utf8ByteSize) : s = s' := by
  have hsplit : splitBytes? s.utf8ByteSize (s ++ t).toList = some (s.toList, t.toList) :=
    splitBytes?_eq_some.2 ⟨String.toList_append, by rw [byteSize_eq, String.ofList_toList]⟩
  have hsplit' : splitBytes? s.utf8ByteSize (s ++ t).toList = some (s'.toList, t'.toList) := by
    rw [h, hsize]
    exact splitBytes?_eq_some.2 ⟨String.toList_append, by rw [byteSize_eq, String.ofList_toList]⟩
  have hparts := Option.some.inj (hsplit.symm.trans hsplit')
  exact String.toList_inj.1 (congrArg Prod.fst hparts)

/-- A text has no opcode exactly when it is not an opcode and a body. -/
theorem noOpcode_iff {t : String} :
    NoOpcode t ↔ ∀ (opcode : Opcode) (body : String), t ≠ opcode.name ++ body := by
  constructor
  · rintro hnone opcode body rfl
    have hsize := utf8ByteSize_name opcode
    rcases hnone with hshort | hinside | ⟨front, rest, heq, hfront, hne⟩
    · rw [String.utf8ByteSize_append] at hshort
      omega
    · refine hinside (String.Pos.Raw.isValid_iff_exists_append.2 ⟨opcode.name, body, rfl, ?_⟩)
      rw [String.rawEndPos, hsize]
    · exact hne opcode (append_inj_of_utf8ByteSize heq (hsize.trans hfront.symm)).symm
  · intro h
    by_cases hvalid : (String.Pos.Raw.mk 3).IsValid t
    · obtain ⟨front, rest, rfl, hfront⟩ := String.Pos.Raw.isValid_iff_exists_append.1 hvalid
      refine .inr (.inr ⟨front, rest, rfl, congrArg String.Pos.Raw.byteIdx hfront.symm, ?_⟩)
      rintro opcode rfl
      exact h opcode rest rfl
    · exact .inr (.inl hvalid)

namespace Command

theorem ofChars_of_name {line : List Char} {opcode : Opcode} {body : List Char}
    (h : trim line = opcode.name.toList ++ body) :
    ofChars line = ofFields (.ofBody body) opcode := by
  rw [ofChars, h]
  simp only [WrittenLine.splitBytes?_name, WrittenLine.read?_name]

/-- A line without an opcode is refused, with the text at the place of the opcode. -/
theorem ofChars_of_noOpcode {line : List Char} (h : NoOpcode (.ofList (trim line))) :
    ∃ text, ofChars line = .error (.unknownOpcode text) := by
  cases hsplit : splitBytes? 3 (trim line) with
  | none =>
    simp only [ofChars, hsplit, LineError.ofOpcode]
    exact ⟨_, rfl⟩
  | some parts =>
    obtain ⟨front, body⟩ := parts
    cases hread : Opcode.read? front with
    | none =>
      simp only [ofChars, hsplit, hread, LineError.ofOpcode]
      exact ⟨_, rfl⟩
    | some opcode =>
      obtain ⟨hline, _⟩ := splitBytes?_eq_some.1 hsplit
      obtain rfl := Opcode.read?_eq_some.1 hread
      refine absurd ?_ (noOpcode_iff.1 h opcode (.ofList body))
      rw [hline, String.ofList_append, String.ofList_toList]

end Command

/-! ## Values -/

/-- What a value is of the text of its field: nothing without a text, its number if the trimmed text
is a finite one, and otherwise bad. -/
def FieldValue.Of (text : Option (List Char)) : FieldValue → Prop
  | .absent => text = none
  | .bad shown => ∃ cs, text = some cs ∧ shown = trim cs ∧
      ∀ x, Single.read? (trim cs) = some x → ¬ x.isFinite
  | .number x => ∃ cs, text = some cs ∧ Single.read? (trim cs) = some x ∧ x.isFinite

/-- What is made of a text has the status that the text calls for. -/
theorem FieldValue.of_ofText (cs : List Char) : (ofText cs).Of (some cs) := by
  unfold ofText
  dsimp only
  split
  · next x hx =>
    split
    · next hfinite => exact ⟨cs, rfl, hx, hfinite⟩
    · next hinfinite =>
      refine ⟨cs, rfl, rfl, fun y hy => ?_⟩
      obtain rfl := Option.some.inj (hx.symm.trans hy)
      exact hinfinite
  · next hnone => exact ⟨cs, rfl, rfl, fun y hy => by rw [hnone] at hy; cases hy⟩

namespace Fields

variable {fields : Fields} {k : Field}

theorem value_of (fields : Fields) (k : Field) : (fields.value k).Of (fields k) := by
  unfold value
  cases fields k with
  | none => rfl
  | some cs => exact FieldValue.of_ofText cs

theorem Holds.isSome {x : Option Single} (h : fields.Holds k x) : (fields k).isSome = x.isSome := by
  have hvalue := fields.value_of k
  cases x with
  | none =>
    rw [show fields.value k = .absent from h] at hvalue
    rw [show fields k = none from hvalue]
    rfl
  | some x =>
    rw [show fields.value k = .number x from h] at hvalue
    obtain ⟨cs, hk, _⟩ := hvalue
    rw [hk]
    rfl

theorem Holds.finite {x : Single} (h : fields.Holds k (some x)) : x.isFinite := by
  have hvalue := fields.value_of k
  rw [show fields.value k = .number x from h] at hvalue
  obtain ⟨_, _, _, hfinite⟩ := hvalue
  exact hfinite

end Fields

/-! ## Queries -/

/-- A field that a command consults, and the fields of which one is missing if it is not there. -/
structure Query where
  field : Field
  missing : Option (List Field)

namespace Query

def optional (k : Field) : Query := ⟨k, none⟩

def needed (k : Field) : Query := ⟨k, some [k]⟩

def fault (fields : Fields) (q : Query) : Option LineError :=
  match fields.value q.field with
  | .absent => q.missing.map .missingField
  | .bad text => some (.ofValue q.field text)
  | .number _ => none

end Query

def configuring : List Field := [.spi, .dlc, .olc, .rlc, .x]

/-- The fields that a command consults, in order. Which of them a configuration goes on to depends
on those that it finds. -/
def queries (fields : Fields) : Opcode → List Query
  | .move => [.needed .x, .needed .f, .optional .rlc]
  | .wait => [.needed .w]
  | .replay => [.needed .c]
  | .configure =>
    [.optional .spi, .optional .dlc, .optional .olc] ++
      if (fields .spi).isSome || (fields .dlc).isSome || (fields .olc).isSome then []
      else .optional .rlc ::
        if (fields .rlc).isSome then [] else [⟨.x, some configuring⟩, .needed .f]

namespace Command

variable {fields fields' : Fields} {opcode : Opcode}

/-- A query that is followed by others: the first fault is its own, or there is none and the others
decide. -/
theorem consult_eq_error {q : Query} {qs : List Query} {f : Option Single → Except LineError Command}
    {e : LineError}
    (hsome : ∀ x, fields.Holds q.field (some x) →
      (f (some x) = .error e ↔ qs.findSome? (Query.fault fields) = some e))
    (hnone : fields.Holds q.field none → (f none = .error e ↔
      (q.missing.map LineError.missingField).or (qs.findSome? (Query.fault fields)) = some e)) :
    (fields.number? q.field >>= f) = .error e ↔
      (q :: qs).findSome? (Query.fault fields) = some e := by
  rw [List.findSome?_cons, Query.fault, Fields.number?]
  unfold Fields.Holds at hsome hnone
  cases hvalue : fields.value q.field with
  | bad text =>
    change Except.error _ = Except.error e ↔ _
    simp
  | number x => exact hsome x hvalue
  | absent =>
    refine (hnone hvalue).trans ?_
    cases q.missing <;> rfl

theorem number_bind (k : Field) (f : Single → Except LineError Command) :
    (fields.number k >>= f) = fields.number? k >>= fun x =>
      match x with
      | some x => f x
      | none => .error (.missingField [k]) := by
  rw [Fields.number, bind_assoc]
  refine bind_congr fun x => ?_
  cases x <;> rfl

theorem needed_eq_error {k : Field} {qs : List Query} {f : Single → Except LineError Command}
    {e : LineError}
    (hsome : ∀ x, f x = .error e ↔ qs.findSome? (Query.fault fields) = some e) :
    (fields.number k >>= f) = .error e ↔
      (Query.needed k :: qs).findSome? (Query.fault fields) = some e := by
  rw [number_bind]
  exact consult_eq_error (q := .needed k) (fun x _ => hsome x) fun _ => by simp [Query.needed]

theorem optional_eq_error {k : Field} {qs : List Query}
    {f : Option Single → Except LineError Command} {e : LineError}
    (h : ∀ x, fields.Holds k x → (f x = .error e ↔ qs.findSome? (Query.fault fields) = some e)) :
    (fields.number? k >>= f) = .error e ↔
      (Query.optional k :: qs).findSome? (Query.fault fields) = some e :=
  consult_eq_error (q := .optional k) (fun x hx => h (some x) hx) fun hnone => by
    simpa [Query.optional] using h none hnone

/-- A configuring line is refused with the first fault in the order of its queries. -/
theorem configuration_eq_error {e : LineError} : configuration fields = .error e ↔
    (queries fields .configure).findSome? (Query.fault fields) = some e := by
  unfold configuration queries
  refine optional_eq_error fun u hu => optional_eq_error fun d hd => optional_eq_error fun o ho => ?_
  rw [hu.isSome, hd.isSome, ho.isSome]
  split
  · simp [pure, Except.pure]
  · refine optional_eq_error fun r hr => ?_
    rw [hr.isSome]
    cases r with
    | some reference => simp [pure, Except.pure]
    | none =>
      refine consult_eq_error (q := ⟨.x, some configuring⟩) (fun target hx => ?_) fun hx => ?_
      · exact needed_eq_error fun feedrate => by simp [pure, Except.pure]
      · simp [configuring, throw, throwThe, MonadExceptOf.throw]

/-- The first fault among the queries refuses the line. -/
theorem ofFields_eq_error {e : LineError} : ofFields fields opcode = .error e ↔
    (queries fields opcode).findSome? (Query.fault fields) = some e := by
  cases opcode with
  | configure => exact configuration_eq_error
  | move =>
    refine needed_eq_error fun target => needed_eq_error fun feedrate => ?_
    exact optional_eq_error fun samples _ => by simp [pure, Except.pure]
  | wait => exact needed_eq_error fun seconds => by simp [pure, Except.pure]
  | replay => exact needed_eq_error fun n => by simp [pure, Except.pure]

/-- No query finds fault with an opcode. -/
theorem ofFields_ne_unknownOpcode {text : String} :
    ofFields fields opcode ≠ .error (.unknownOpcode text) := by
  intro h
  obtain ⟨q, _, hq⟩ := List.exists_of_findSome?_eq_some (ofFields_eq_error.1 h)
  unfold Query.fault at hq
  split at hq
  · cases hmissing : q.missing <;> simp [hmissing] at hq
  · cases hq
  · cases hq

/-! ## What is not consulted -/

theorem except_bind_congr {ε α β : Type} {x : Except ε α} {f g : α → Except ε β}
    (h : ∀ a, x = .ok a → f a = g a) : (x >>= f) = (x >>= g) := by
  cases x with
  | error e => rfl
  | ok a => exact h a rfl

theorem number?_of_agree {k : Field} (h : fields'.value k = fields.value k) :
    fields'.number? k = fields.number? k := by
  rw [Fields.number?, h, Fields.number?]

theorem number_of_agree {k : Field} (h : fields'.value k = fields.value k) :
    fields'.number k = fields.number k := by
  rw [Fields.number, number?_of_agree h, Fields.number]

/-- A configuring line depends on no field but those that it asks for. -/
theorem configuration_of_agree
    (h : ∀ q ∈ queries fields .configure, fields'.value q.field = fields.value q.field) :
    configuration fields' = configuration fields := by
  have hspi : fields'.value .spi = fields.value .spi := h (.optional .spi) (by simp [queries])
  have hdlc : fields'.value .dlc = fields.value .dlc := h (.optional .dlc) (by simp [queries])
  have holc : fields'.value .olc = fields.value .olc := h (.optional .olc) (by simp [queries])
  unfold configuration
  rw [number?_of_agree hspi, number?_of_agree hdlc, number?_of_agree holc]
  refine except_bind_congr fun u hu => except_bind_congr fun d hd => except_bind_congr fun o ho => ?_
  split
  · rfl
  · next hnone =>
    have hmore : ((fields .spi).isSome || (fields .dlc).isSome || (fields .olc).isSome) = false := by
      rw [(Fields.number?_eq_ok.1 hu).isSome, (Fields.number?_eq_ok.1 hd).isSome,
        (Fields.number?_eq_ok.1 ho).isSome]
      exact Bool.eq_false_iff.2 hnone
    have hrlc : fields'.value .rlc = fields.value .rlc :=
      h (.optional .rlc) (by simp [queries, hmore])
    rw [number?_of_agree hrlc]
    refine except_bind_congr fun r hr => ?_
    cases r with
    | some reference => rfl
    | none =>
      have hrest : (fields .rlc).isSome = false := (Fields.number?_eq_ok.1 hr).isSome
      have hx : fields'.value .x = fields.value .x :=
        h ⟨.x, some configuring⟩ (by simp [queries, hmore, hrest])
      have hf : fields'.value .f = fields.value .f :=
        h (.needed .f) (by simp [queries, hmore, hrest])
      rw [number?_of_agree hx, number_of_agree hf]

/-- Fields that are not consulted make no difference. -/
theorem ofFields_of_agree
    (h : ∀ q ∈ queries fields opcode, fields'.value q.field = fields.value q.field) :
    ofFields fields' opcode = ofFields fields opcode := by
  cases opcode with
  | configure => exact configuration_of_agree h
  | move =>
    have hx : fields'.value .x = fields.value .x := h (.needed .x) (by simp [queries])
    have hf : fields'.value .f = fields.value .f := h (.needed .f) (by simp [queries])
    have hr : fields'.value .rlc = fields.value .rlc := h (.optional .rlc) (by simp [queries])
    rw [ofFields, number_of_agree hx, number_of_agree hf, number?_of_agree hr, ofFields]
  | wait =>
    have hw : fields'.value .w = fields.value .w := h (.needed .w) (by simp [queries])
    rw [ofFields, number_of_agree hw, ofFields]
  | replay =>
    have hc : fields'.value .c = fields.value .c := h (.needed .c) (by simp [queries])
    rw [ofFields, number_of_agree hc, ofFields]

end Command

/-! ## Numbers -/

/-- A sample count is cut to a whole number and kept within 32 bits. -/
theorem sampleCount_eq {x : Single} (hx : x.isFinite) :
    sampleCount x = clamp (-2 ^ 31) (2 ^ 31 - 1) (towardZero x.toRat) :=
  Single.truncate_eq (by decide) (by decide) hx

/-- A cycle count that is positive is cut to a whole number and kept within 32 bits; any other is
zero. -/
theorem cycleCount_eq {x : Single} (hx : x.isFinite) :
    (cycleCount x : ℤ) = if 0 < x then min ⌊x.toRat⌋ (2 ^ 32 - 1) else 0 := by
  have hcut : x.truncate 0 0xFFFFFFFF = clamp 0 0xFFFFFFFF (towardZero x.toRat) :=
    Single.truncate_eq (Int.le_refl 0) (by decide) hx
  have hmem : 0 ≤ clamp 0 0xFFFFFFFF (towardZero x.toRat) ∧ _ := clamp_mem (by decide) _
  rw [cycleCount, hcut, Int.toNat_of_nonneg hmem.1]
  by_cases hpos : 0 < x
  · have hq : 0 < x.toRat := (Single.pos_iff hx).1 hpos
    have hfloor : 0 ≤ ⌊x.toRat⌋ := Int.floor_nonneg.2 hq.le
    rw [if_pos hpos, towardZero, if_pos hq.le, clamp]
    omega
  · have hq : x.toRat ≤ 0 := le_of_not_gt (mt (Single.pos_iff hx).2 hpos)
    have hwhole : towardZero x.toRat ≤ 0 := by
      unfold towardZero
      split
      · exact Int.floor_nonpos hq
      · exact Int.ceil_le.2 (by exact_mod_cast hq)
    rw [if_neg hpos, clamp]
    omega

namespace Command

/-- The numbers of a command that its line gave in full. -/
def numbers : Command → List Single
  | .move target feedrate _ => [target, feedrate]
  | .wait seconds => [seconds]
  | .replay _ => []
  | .constants given =>
    given.stepsPerUnit.toList ++ given.scaleDivider.toList ++ given.offset.toList
  | .calibrateLoad reference => [reference]
  | .calibrateDistance target feedrate => [target, feedrate]

/-- Every number of a command that was spelled out is finite. -/
theorem SpelledBy.finite {fields : Fields} {c : Command} (h : c.SpelledBy fields) :
    ∀ x ∈ c.numbers, x.isFinite := by
  cases c with
  | move target feedrate samples =>
    obtain ⟨hx, hf, _⟩ := h
    simp [numbers, hx.finite, hf.finite]
  | wait seconds =>
    have hw : fields.Holds .w (some seconds) := h
    simp [numbers, hw.finite]
  | replay cycles => simp [numbers]
  | constants given =>
    obtain ⟨u, d, o⟩ := given
    obtain ⟨hu, hd, ho, _⟩ := h
    intro x hx
    simp only [numbers, List.mem_append, Option.mem_toList] at hx
    rcases hx with (rfl | rfl) | rfl
    · exact hu.finite
    · exact hd.finite
    · exact ho.finite
  | calibrateLoad reference =>
    obtain ⟨_, _, _, hr⟩ := h
    simp [numbers, hr.finite]
  | calibrateDistance target feedrate =>
    obtain ⟨_, _, _, _, hx, hf⟩ := h
    simp [numbers, hx.finite, hf.finite]

/-! ## Lines -/

/-- How the fields of a line settle what it is read as. -/
structure Settled (fields : Fields) (opcode : Opcode) (result : Except LineError Command) : Prop where
  values : ∀ k, (fields.value k).Of (fields k)
  refused : ∀ e, result = .error e ↔
    (queries fields opcode).findSome? (Query.fault fields) = some e
  accepted : ∀ c, result = .ok c ↔ c.opcode = opcode ∧ c.SpelledBy fields
  finite : ∀ c, result = .ok c → ∀ x ∈ c.numbers, x.isFinite
  samples : ∀ target feedrate n, result = .ok (.move target feedrate n) →
    (fields.value .rlc = .absent ∧ n = 0) ∨ ∃ x, fields.value .rlc = .number x ∧
      n = clamp (-2 ^ 31) (2 ^ 31 - 1) (towardZero x.toRat)
  cycles : ∀ n, result = .ok (.replay n) → ∃ x, fields.value .c = .number x ∧
    (n : ℤ) = if 0 < x then min ⌊x.toRat⌋ (2 ^ 32 - 1) else 0

/-- What an opcode makes of fields is settled by their values alone. -/
theorem ofFields_settled (fields : Fields) (opcode : Opcode) :
    Settled fields opcode (ofFields fields opcode) where
  values := fields.value_of
  refused e := ofFields_eq_error
  accepted c := ofFields_eq_ok
  finite c h := (ofFields_eq_ok.1 h).2.finite
  samples target feedrate n h := by
    obtain ⟨_, _, _, r, hr, rfl⟩ := ofFields_eq_ok.1 h
    cases r with
    | none => exact .inl ⟨hr, rfl⟩
    | some x => exact .inr ⟨x, hr, sampleCount_eq hr.finite⟩
  cycles n h := by
    obtain ⟨_, x, hx, rfl⟩ := ofFields_eq_ok.1 h
    exact ⟨x, hx, cycleCount_eq hx.finite⟩

theorem ofLine_of_name {line : String} {opcode : Opcode} {body : String}
    (h : String.ofList (trim line.toList) = opcode.name ++ body) :
    ofLine line = ofFields (.ofBody body.toList) opcode := by
  refine ofChars_of_name ?_
  rw [← String.toList_append, ← h, String.toList_ofList]

/-- A line without an opcode is refused for that, and no other line is. With an opcode, the queries of
its command are put to the fields in order: the first fault refuses the line, and without a fault it
is the command whose numbers the fields hold. Whatever is not consulted makes no difference. -/
theorem line_read (line : String) :
    let t := String.ofList (trim line.toList)
    (NoOpcode t ↔ ∃ text, ofLine line = .error (.unknownOpcode text)) ∧
    (¬ NoOpcode t → ∃ opcode body, t = opcode.name ++ body ∧
      Settled (.ofBody body.toList) opcode (ofLine line) ∧
      ∀ line' body', String.ofList (trim line'.toList) = opcode.name ++ body' →
        (∀ q ∈ queries (.ofBody body.toList) opcode,
          (Fields.ofBody body'.toList).value q.field = (Fields.ofBody body.toList).value q.field) →
        ofLine line' = ofLine line) := by
  intro t
  have hnamed : ¬ NoOpcode t → ∃ (opcode : Opcode) (body : String), t = opcode.name ++ body := by
    intro h
    simpa [noOpcode_iff] using h
  refine ⟨⟨fun h => ofChars_of_noOpcode h, ?_⟩, fun h => ?_⟩
  · rintro ⟨text, htext⟩
    by_contra h
    obtain ⟨opcode, body, ht⟩ := hnamed h
    rw [ofLine_of_name ht] at htext
    exact ofFields_ne_unknownOpcode htext
  · obtain ⟨opcode, body, ht⟩ := hnamed h
    refine ⟨opcode, body, ht, ?_, fun line' body' ht' hagree => ?_⟩
    · rw [ofLine_of_name ht]
      exact ofFields_settled _ opcode
    · rw [ofLine_of_name ht, ofLine_of_name ht', ofFields_of_agree hagree]

/-- A reference load settles a configuration, so it is read past a target that is no number. -/
theorem reference_read_past_target : ofLine "G00 Xmuch RLC10" = ofLine "G00 RLC10" := by
  have hline : String.ofList (trim "G00 RLC10".toList) = Opcode.configure.name ++ " RLC10" := by
    decide
  have hline' : String.ofList (trim "G00 Xmuch RLC10".toList) =
      Opcode.configure.name ++ " Xmuch RLC10" := by decide
  obtain ⟨opcode, body, ht, _, hagree⟩ := (line_read "G00 RLC10").2 fun h =>
    noOpcode_iff.1 h _ _ hline
  have hname : Opcode.configure.name = opcode.name :=
    append_inj_of_utf8ByteSize (hline.symm.trans ht) (utf8ByteSize_name opcode).symm
  obtain rfl : opcode = .configure := by
    cases opcode <;> first | rfl | exact absurd hname (by decide)
  obtain rfl : body = " RLC10" :=
    (String.append_right_inj Opcode.configure.name).1 (ht.symm.trans hline)
  have hsame : ∀ k ∈ [Field.spi, .dlc, .olc, .rlc],
      Fields.ofBody " Xmuch RLC10".toList k = Fields.ofBody " RLC10".toList k := by decide
  refine hagree _ _ hline' fun q hq => ?_
  have hq : q.field ∈ [Field.spi, .dlc, .olc, .rlc] := List.mem_map_of_mem hq
  rw [Fields.value, hsame _ hq, Fields.value]

end Command

end LoadBench
