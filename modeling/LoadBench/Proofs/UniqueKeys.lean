import LoadBench.Toml.Document
import Mathlib.Data.List.Nodup

/-!
# Keys of a document

In the tree of a document no table gives a key twice, however the table came to be: by a header, on
the way to a longer header or to a dotted key, in a list of tables or between braces. So a key of a
table has at most one value there, and looking a key up finds all that the document says of it.
-/

namespace LoadBench.Toml

/-- A value whose tables give no key twice, at whatever depth. -/
inductive Value.Keyed : Value → Prop where
  | string (s : String) : Keyed (.string s)
  | integer (n : Int) : Keyed (.integer n)
  | float (x : Double) : Keyed (.float x)
  | boolean (b : Bool) : Keyed (.boolean b)
  | datetime : Keyed .datetime
  | array {vs : List Value} (values : ∀ v ∈ vs, Keyed v) : Keyed (.array vs)
  | table {origin : Origin} {es : List (String × Value)} (nodup : (es.map Prod.fst).Nodup)
    (values : ∀ e ∈ es, Keyed e.2) : Keyed (.table origin es)
  | tables {ts : List (List (String × Value))} (nodup : ∀ es ∈ ts, (es.map Prod.fst).Nodup)
    (values : ∀ es ∈ ts, ∀ e ∈ es, Keyed e.2) : Keyed (.tables ts)

/-- A table that gives no key twice, and neither do the tables in it. -/
structure Entries.Keyed (es : Entries) : Prop where
  nodup : (es.map Prod.fst).Nodup
  values : ∀ e ∈ es, e.2.Keyed

theorem keyed_table {origin : Origin} {es : Entries} :
    (Value.table origin es).Keyed ↔ es.Keyed := by
  constructor
  · rintro (_ | _ | _ | _ | _ | _ | ⟨hnodup, hvalues⟩)
    exact ⟨hnodup, hvalues⟩
  · rintro ⟨hnodup, hvalues⟩
    exact .table hnodup hvalues

theorem keyed_tables {ts : List Entries} : (Value.tables ts).Keyed ↔ ∀ es ∈ ts, es.Keyed := by
  constructor
  · rintro (_ | _ | _ | _ | _ | _ | _ | ⟨hnodup, hvalues⟩) es hes
    exact ⟨hnodup es hes, hvalues es hes⟩
  · intro h
    exact .tables (fun es hes => (h es hes).nodup) fun es hes => (h es hes).values

/-! ## Tables -/

namespace Entries

variable {es : Entries} {key : String} {v : Value}

theorem lookup_eq_none : es.lookup key = none ↔ key ∉ es.map Prod.fst := by
  rw [List.lookup_eq_none_iff]
  constructor
  · intro h hmem
    obtain ⟨e, he, rfl⟩ := List.mem_map.1 hmem
    simpa using h e he
  · intro h e he
    exact bne_iff_ne.2 fun heq => h (heq ▸ List.mem_map_of_mem he)

theorem mem_of_lookup (h : es.lookup key = some v) : (key, v) ∈ es := by
  obtain ⟨before, after, rfl, _⟩ := List.lookup_eq_some_iff.1 h
  exact List.mem_append_right before List.mem_cons_self

theorem Keyed.nil : Keyed [] := ⟨List.nodup_nil, nofun⟩

theorem Keyed.of_lookup (h : es.Keyed) (hlookup : es.lookup key = some v) : v.Keyed :=
  h.values _ (mem_of_lookup hlookup)

theorem Keyed.concat (h : es.Keyed) (hnew : es.lookup key = none) (hv : v.Keyed) :
    Keyed (es ++ [(key, v)]) where
  nodup := by
    rw [List.map_append, List.map_singleton, ← List.concat_eq_append]
    exact h.nodup.concat (lookup_eq_none.1 hnew)
  values := List.forall_mem_append.2 ⟨h.values, List.forall_mem_singleton.2 hv⟩

/-- A new value for a key takes the place of the old one, so that no key comes twice. -/
theorem Keyed.put (h : es.Keyed) (hv : v.Keyed) : (es.put key v).Keyed where
  nodup := by
    have hkeys : (es.put key v).map Prod.fst = es.map Prod.fst := by
      rw [Entries.put, List.map_map]
      refine List.map_congr_left fun e _ => ?_
      dsimp only [Function.comp_apply]
      split
      · rfl
      · rfl
    rw [hkeys]
    exact h.nodup
  values e he := by
    obtain ⟨old, hold, rfl⟩ := List.mem_map.1 he
    dsimp only
    split
    · exact hv
    · exact h.values old hold

theorem Keyed.filter (h : es.Keyed) (keep : String × Value → Bool) : Keyed (es.filter keep) where
  nodup := h.nodup.sublist (List.filter_sublist.map Prod.fst)
  values e he := h.values e (List.mem_of_mem_filter he)

end Entries

/-! ## Changes of tables -/

theorem modifyLast?_mem {α : Type} {P : α → Prop} {f : α → Option α}
    (hf : ∀ a a', P a → f a = some a' → P a') {l l' : List α} (h : modifyLast? f l = some l')
    (hl : ∀ a ∈ l, P a) : ∀ a ∈ l', P a := by
  fun_induction modifyLast? f l generalizing l' with
  | case1 => cases h
  | case2 a =>
    obtain ⟨a', ha', rfl⟩ := Option.map_eq_some_iff.1 h
    intro b hb
    rw [List.mem_singleton.1 hb]
    exact hf a a' (hl a List.mem_cons_self) ha'
  | case3 a as _ ih =>
    obtain ⟨as', has', rfl⟩ := Option.map_eq_some_iff.1 h
    have hrest := ih has' fun b hb => hl b (List.mem_cons_of_mem a hb)
    exact List.forall_mem_cons.2 ⟨hl a List.mem_cons_self, hrest⟩

/-- A pair goes to the table at the end of its path, which refuses a key that it has. -/
theorem insertPair_keyed {path : List String} {key : String} {v : Value} {es es' : Entries}
    (hv : v.Keyed) (h : insertPair path key v es = some es') (hes : es.Keyed) : es'.Keyed := by
  induction path generalizing es es' with
  | nil =>
    simp only [insertPair] at h
    split at h
    · cases h
    · next hnew =>
      cases h
      exact hes.concat (Option.not_isSome_iff_eq_none.1 hnew) hv
  | cons p path ih =>
    simp only [insertPair] at h
    split at h
    · next hnew =>
      obtain ⟨inner', hinner, hes'⟩ := Option.bind_eq_some_iff.1 h
      cases hes'
      exact hes.concat hnew (keyed_table.2 (ih hinner .nil))
    · next inner hold =>
      obtain ⟨inner', hinner, hes'⟩ := Option.bind_eq_some_iff.1 h
      cases hes'
      exact hes.put (keyed_table.2 (ih hinner (keyed_table.1 (hes.of_lookup hold))))
    · next inner hold =>
      split at h
      · cases h
      · obtain ⟨inner', hinner, hes'⟩ := Option.bind_eq_some_iff.1 h
        cases hes'
        exact hes.put (keyed_table.2 (ih hinner (keyed_table.1 (hes.of_lookup hold))))
    · next items hold =>
      split at h
      · cases h
      · obtain ⟨items', hitems, hes'⟩ := Option.bind_eq_some_iff.1 h
        cases hes'
        refine hes.put (keyed_tables.2 (modifyLast?_mem (fun a a' ha ha' => ih ha' ha) hitems ?_))
        exact keyed_tables.1 (hes.of_lookup hold)
    · cases h

theorem foldlM_keeps {α β : Type} {P : β → Prop} {f : β → α → Option β} {l : List α}
    (hf : ∀ a ∈ l, ∀ b b', P b → f b a = some b' → P b') {b b' : β} (h : l.foldlM f b = some b')
    (hb : P b) : P b' := by
  induction l generalizing b with
  | nil => cases h; exact hb
  | cons a l ih =>
    rw [List.foldlM_cons] at h
    obtain ⟨b₁, hb₁, h⟩ := Option.bind_eq_some_iff.1 h
    exact ih (fun a' ha' => hf a' (List.mem_cons_of_mem a ha')) h
      (hf a List.mem_cons_self b b₁ hb hb₁)

theorem inlineTable_keyed {pairs : List (List String × Value)} {v : Value}
    (hpairs : ∀ p ∈ pairs, p.2.Keyed) (h : inlineTable pairs = some v) : v.Keyed := by
  obtain ⟨es, hes, hv⟩ := Option.bind_eq_some_iff.1 h
  cases hv
  refine keyed_table.2 (foldlM_keeps (P := Entries.Keyed) (fun p hp es es' hes h => ?_) hes .nil)
  obtain ⟨key, _, h⟩ := Option.bind_eq_some_iff.1 h
  exact insertPair_keyed (hpairs p hp) h hes

/-! ## Values -/

/-- Whatever a scan reads off a text has a property. -/
def Yields {α : Type} (P : α → Prop) (scan : Scan α) : Prop :=
  ∀ cs a rest, scan cs = some (a, rest) → P a

theorem word?_keyed {cs : List Char} {v : Value} (h : word? cs = some v) : v.Keyed := by
  unfold word? at h
  split at h
  · cases h; exact .boolean true
  split at h
  · cases h; exact .boolean false
  split at h
  · cases h; exact .datetime
  split at h
  · cases h; exact .float _
  · obtain ⟨n, _, rfl⟩ := Option.map_eq_some_iff.1 h
    exact .integer n

theorem scalar_keyed : Yields Value.Keyed scalar := by
  intro cs v rest h
  unfold scalar at h
  obtain ⟨w, hw, h⟩ := Option.bind_eq_some_iff.1 h
  split at h
  · dsimp only at h
    split at h
    · cases h; exact .datetime
    · cases h; exact word?_keyed hw
  · cases h; exact word?_keyed hw

theorem stringValue_keyed :
    Yields Value.Keyed fun cs => (string cs).map fun (s, cs) => (.string s, cs) := by
  intro cs v rest h
  obtain ⟨⟨s, cs'⟩, _, heq⟩ := Option.map_eq_some_iff.1 h
  cases heq
  exact .string s

section

variable {item : Scan Value} (hitem : Yields Value.Keyed item)

include hitem

theorem arrayItems_keyed (fuel : Nat) : Yields (∀ v ∈ ·, v.Keyed) (arrayItems item fuel) := by
  intro cs vs rest h
  induction fuel generalizing cs vs with
  | zero => cases h
  | succ fuel ih =>
    simp only [arrayItems] at h
    obtain ⟨cs₁, _, h⟩ := Option.bind_eq_some_iff.1 h
    split at h
    · cases h; nofun
    · obtain ⟨⟨v, cs₂⟩, hv, h⟩ := Option.bind_eq_some_iff.1 h
      obtain ⟨cs₃, _, h⟩ := Option.bind_eq_some_iff.1 h
      split at h
      · obtain ⟨⟨vs', cs₄⟩, hvs, h⟩ := Option.bind_eq_some_iff.1 h
        cases h
        exact List.forall_mem_cons.2 ⟨hitem _ _ _ hv, ih _ _ hvs⟩
      · cases h
        exact List.forall_mem_singleton.2 (hitem _ _ _ hv)
      · cases h

theorem pair_keyed : Yields (·.2.Keyed) (pair item) := by
  intro cs p rest h
  obtain ⟨⟨path, cs₁⟩, _, h⟩ := Option.bind_eq_some_iff.1 h
  obtain ⟨cs₂, _, h⟩ := Option.bind_eq_some_iff.1 h
  obtain ⟨⟨v, cs₃⟩, hv, h⟩ := Option.bind_eq_some_iff.1 h
  cases h
  exact hitem _ _ _ hv

theorem inlinePairs_keyed (fuel : Nat) : Yields (∀ p ∈ ·, p.2.Keyed) (inlinePairs item fuel) := by
  intro cs ps rest h
  induction fuel generalizing cs ps with
  | zero => cases h
  | succ fuel ih =>
    simp only [inlinePairs] at h
    obtain ⟨⟨p, cs₁⟩, hp, h⟩ := Option.bind_eq_some_iff.1 h
    have hfirst := pair_keyed hitem _ _ _ hp
    split at h
    · obtain ⟨⟨ps', cs₂⟩, hps, h⟩ := Option.bind_eq_some_iff.1 h
      cases h
      exact List.forall_mem_cons.2 ⟨hfirst, ih _ _ hps⟩
    · cases h
      exact List.forall_mem_singleton.2 hfirst
    · cases h

end

/-- No table of a value has a key twice, however deep it is in it. -/
theorem value_keyed (depth : Nat) : Yields Value.Keyed (value depth) := by
  -- Only brackets nest, so the depth is looked at in two of the cases and nowhere else.
  induction depth using Nat.strongRecOn with
  | ind depth ih =>
    intro cs v rest h
    unfold value at h
    split at h
    · exact stringValue_keyed _ _ _ h
    · exact stringValue_keyed _ _ _ h
    · split at h
      · cases h
      · next depth =>
        obtain ⟨⟨vs, cs₁⟩, hvs, heq⟩ := Option.map_eq_some_iff.1 h
        cases heq
        exact .array (arrayItems_keyed (ih depth depth.lt_succ_self) _ _ _ _ hvs)
    · split at h
      · cases h
      · next depth =>
        dsimp only at h
        split at h
        · cases h
          exact keyed_table.2 .nil
        · obtain ⟨⟨ps, cs₁⟩, hps, h⟩ := Option.bind_eq_some_iff.1 h
          obtain ⟨v', hv', h⟩ := Option.bind_eq_some_iff.1 h
          cases h
          exact inlineTable_keyed (inlinePairs_keyed (ih depth depth.lt_succ_self) _ _ _ _ hps) hv'
    · exact scalar_keyed _ _ _ h

/-! ## Documents -/

def Statement.Keyed : Statement → Prop
  | .pair _ v => v.Keyed
  | _ => True

/-- A statement is a pair with a keyed value, or a header. -/
theorem statement_keyed : Yields Statement.Keyed statement := by
  intro cs s rest h
  unfold statement at h
  split at h
  · obtain ⟨⟨path, cs₁⟩, _, h⟩ := Option.bind_eq_some_iff.1 h
    obtain ⟨cs₂, _, h⟩ := Option.bind_eq_some_iff.1 h
    obtain ⟨cs₃, _, h⟩ := Option.bind_eq_some_iff.1 h
    cases h
    trivial
  · obtain ⟨⟨path, cs₁⟩, _, h⟩ := Option.bind_eq_some_iff.1 h
    obtain ⟨cs₂, _, h⟩ := Option.bind_eq_some_iff.1 h
    obtain ⟨cs₃, _, h⟩ := Option.bind_eq_some_iff.1 h
    cases h
    trivial
  · obtain ⟨⟨p, cs₁⟩, hp, h⟩ := Option.bind_eq_some_iff.1 h
    obtain ⟨cs₂, _, h⟩ := Option.bind_eq_some_iff.1 h
    cases h
    exact pair_keyed (value_keyed depthLimit) _ _ _ hp

theorem statements_keyed {fuel : Nat} {cs : List Char} {ss : List Statement}
    (h : statements fuel cs = some ss) : ∀ s ∈ ss, s.Keyed := by
  induction fuel generalizing cs ss with
  | zero => cases h
  | succ fuel ih =>
    simp only [statements] at h
    obtain ⟨cs₁, _, h⟩ := Option.bind_eq_some_iff.1 h
    split at h
    · cases h; nofun
    · obtain ⟨⟨s, cs₂⟩, hs, h⟩ := Option.bind_eq_some_iff.1 h
      obtain ⟨ss', hss, h⟩ := Option.bind_eq_some_iff.1 h
      cases h
      exact List.forall_mem_cons.2 ⟨statement_keyed _ _ _ hs, ih hss⟩

/-- A change at the end of a path keeps keys apart if it does so in the table it is made in. Whatever
else it gives comes from a table with its keys apart, too. -/
theorem atPath_keyed {α : Type} {P : α → Prop} {f : Entries → Option (α × Entries)}
    (hf : ∀ es a es', es.Keyed → f es = some (a, es') → P a ∧ es'.Keyed) {path : List String}
    {es es' : Entries} {a : α} (h : atPath f path es = some (a, es')) (hes : es.Keyed) :
    P a ∧ es'.Keyed := by
  induction path generalizing es es' with
  | nil => exact hf es a es' hes h
  | cons p path ih =>
    simp only [atPath] at h
    split at h
    · next hnew =>
      obtain ⟨⟨a', inner'⟩, hinner, heq⟩ := Option.bind_eq_some_iff.1 h
      cases heq
      obtain ⟨ha, hinner'⟩ := ih hinner .nil
      exact ⟨ha, hes.concat hnew (keyed_table.2 hinner')⟩
    · cases h
    · next origin inner _ hold =>
      obtain ⟨⟨a', inner'⟩, hinner, heq⟩ := Option.bind_eq_some_iff.1 h
      cases heq
      obtain ⟨ha, hinner'⟩ := ih hinner (keyed_table.1 (hes.of_lookup hold))
      exact ⟨ha, hes.put (keyed_table.2 hinner')⟩
    · next items hold =>
      obtain ⟨last, hlast, h⟩ := Option.bind_eq_some_iff.1 h
      obtain ⟨⟨a', last'⟩, hlast', heq⟩ := Option.bind_eq_some_iff.1 h
      cases heq
      have hitems := keyed_tables.1 (hes.of_lookup hold)
      obtain ⟨ha, hnew⟩ := ih hlast' (hitems last (List.mem_of_getLast? hlast))
      have hitems' : ∀ t ∈ items.dropLast ++ [last'], Entries.Keyed t :=
        List.forall_mem_append.2 ⟨fun t ht => hitems t (List.dropLast_subset items ht),
          List.forall_mem_singleton.2 hnew⟩
      exact ⟨ha, hes.put (keyed_tables.2 hitems')⟩
    · cases h

/-- A document under construction, with its keys apart. -/
structure Draft.Keyed (d : Draft) : Prop where
  root : d.root.Keyed
  current : d.current.Keyed

namespace Draft

variable {d d' : Draft} {path : List String}

/-- A table that is closed goes to a key that is new there, or to the end of its list. -/
theorem close_keyed {es : Entries} (h : d.close = some es) (hd : d.Keyed) : es.Keyed := by
  unfold close at h
  split at h
  · cases h
    exact hd.current
  · next key _ =>
    obtain ⟨⟨u, es'⟩, hplaced, heq⟩ := Option.map_eq_some_iff.1 h
    cases heq
    refine (atPath_keyed (P := fun _ => True) (fun t u t' ht h => ⟨trivial, ?_⟩) hplaced hd.root).2
    split at h
    · next items hold _ =>
      cases h
      have hitems : ∀ t ∈ items ++ [d.current], Entries.Keyed t := List.forall_mem_append.2
        ⟨keyed_tables.1 (ht.of_lookup hold), List.forall_mem_singleton.2 hd.current⟩
      exact ht.put (keyed_tables.2 hitems)
    · next hnew _ =>
      cases h
      exact ht.concat hnew (keyed_table.2 hd.current)
    · cases h

/-- The table that a header opens is empty, or has the keys that it had. -/
theorem openTable_keyed (h : d.openTable path = some d') (hd : d.Keyed) : d'.Keyed := by
  obtain ⟨root, hroot, h⟩ := Option.bind_eq_some_iff.1 h
  obtain ⟨key, _, h⟩ := Option.bind_eq_some_iff.1 h
  obtain ⟨⟨current, root'⟩, hopened, heq⟩ := Option.bind_eq_some_iff.1 h
  cases heq
  refine (atPath_keyed (P := Entries.Keyed) (fun t a t' ht h => ?_) hopened
    (close_keyed hroot hd)).elim fun hcurrent hroot' => ⟨hroot', hcurrent⟩
  split at h
  · cases h
    exact ⟨.nil, ht⟩
  · next inner hold =>
    cases h
    exact ⟨keyed_table.1 (ht.of_lookup hold), ht.filter _⟩
  · cases h

theorem openListed_keyed (h : d.openListed path = some d') (hd : d.Keyed) : d'.Keyed := by
  obtain ⟨root, hroot, h⟩ := Option.bind_eq_some_iff.1 h
  obtain ⟨key, _, h⟩ := Option.bind_eq_some_iff.1 h
  obtain ⟨⟨u, root'⟩, hopened, heq⟩ := Option.bind_eq_some_iff.1 h
  cases heq
  refine ⟨(atPath_keyed (P := fun _ => True) (fun t a t' ht h => ⟨trivial, ?_⟩) hopened
    (close_keyed hroot hd)).2, .nil⟩
  split at h
  · next hnew =>
    cases h
    exact ht.concat hnew (keyed_tables.2 nofun)
  · cases h
    exact ht
  · cases h

theorem add_keyed {s : Statement} (h : d.add s = some d') (hs : s.Keyed) (hd : d.Keyed) :
    d'.Keyed := by
  cases s with
  | header path => exact openTable_keyed h hd
  | listHeader path => exact openListed_keyed h hd
  | pair path v =>
    obtain ⟨key, _, h⟩ := Option.bind_eq_some_iff.1 h
    obtain ⟨current, hcurrent, heq⟩ := Option.bind_eq_some_iff.1 h
    cases heq
    exact ⟨hd.root, insertPair_keyed hs hcurrent hd.current⟩

end Draft

/-- What a configuration relies on when its document is read: the tree of a document gives no key
twice. -/
structure Reader.Lawful (read? : Reader) : Prop where
  keyed : ∀ text es, read? text = some es → es.Keyed

theorem read?_keyed {text : String} {es : Entries} (h : read? text = some es) : es.Keyed := by
  unfold read? ofChars at h
  obtain ⟨ss, hss, h⟩ := Option.bind_eq_some_iff.1 h
  obtain ⟨d, hd, h⟩ := Option.bind_eq_some_iff.1 h
  exact Draft.close_keyed h <| foldlM_keeps (P := Draft.Keyed)
    (fun s hs b b' hb hadd => Draft.add_keyed hadd (statements_keyed hss s hs) hb) hd ⟨.nil, .nil⟩

theorem read?_lawful : Reader.Lawful read? := ⟨fun _ _ => read?_keyed⟩

end LoadBench.Toml
