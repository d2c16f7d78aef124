import LoadBench.Config.Document
import LoadBench.Proofs.UniqueKeys
import Mathlib.Data.List.Forall2

/-!
# Sections of a document

A section is read entry by entry, but as no key is given twice, the order of the entries makes no
difference to what is read: every item of the section is what its own key says, or what it was if its
key is not there. A section that is written as an array is read like the table that gives its values
to the keys in order.
-/

namespace LoadBench

open Toml (Value Entries)

/-- An item of a section, the key that sets it, and what the values of this key mean. -/
structure Item (σ : Type) where
  key : String
  Content : Type
  get : σ → Content
  set : Content → σ → σ
  Means : Value → Content → Prop

/-- What is so of an item after its key was given, or not. -/
def Given {α : Type} (Means : Value → α → Prop) (before : α) (v : Option Value) (a : α) : Prop :=
  match v with
  | none => a = before
  | some v => Means v a

/-- A slot changes this item, to what a value means, and nothing else. -/
def Item.SetBy {σ : Type} (w : Item σ) (slot : Slot σ) : Prop :=
  slot.key = w.key ∧ ∀ v s s', slot.put v s = .ok s' ↔ ∃ a, w.Means v a ∧ s' = w.set a s

/-- The slots of a section set its items, which are independent of each other and all of it. -/
structure ItemsOf {σ : Type} (slots : List (Slot σ)) (items : List (Item σ)) : Prop where
  setBy : List.Forall₂ Item.SetBy items slots
  nodup : (items.map Item.key).Nodup
  get_set : ∀ w ∈ items, ∀ a s, w.get (w.set a s) = a
  get_set_of_ne : ∀ w ∈ items, ∀ w' ∈ items, w'.key ≠ w.key → ∀ a s, w'.get (w.set a s) = w'.get s
  ext : ∀ s s', (∀ w ∈ items, w.get s = w.get s') → s = s'

section

variable {σ : Type} {slots : List (Slot σ)} {items : List (Item σ)} {w w' : Item σ} {s s' : σ}

/-! ## Entries -/

theorem Slot.find?_key {slot : Slot σ} (hnodup : (slots.map Slot.key).Nodup) (h : slot ∈ slots) :
    slots.find? (·.key = slot.key) = some slot := by
  induction slots with
  | nil => cases h
  | cons first slots ih =>
    rw [List.map_cons, List.nodup_cons] at hnodup
    rw [List.find?_cons]
    rcases List.mem_cons.1 h with rfl | h
    · simp
    · have hne : first.key ≠ slot.key := fun heq => hnodup.1 (heq ▸ List.mem_map_of_mem h)
      simpa [hne] using ih hnodup.2 h

theorem lookup_cons_of_ne {k key : String} (hne : k ≠ key) (v : Value) (es : Entries) :
    ((key, v) :: es).lookup k = es.lookup k := by
  rw [List.lookup_cons, beq_false_of_ne hne]

namespace ItemsOf

theorem map_key (h : ItemsOf slots items) : slots.map Slot.key = items.map Item.key := by
  rw [← List.forall₂_eq_eq_eq]
  exact List.forall₂_map_right_iff.2 (List.forall₂_map_left_iff.2 (h.setBy.flip.imp fun _ _ => And.left))

theorem eq_of_key_eq (h : ItemsOf slots items) (hw : w ∈ items) (hw' : w' ∈ items)
    (hkey : w.key = w'.key) : w = w' :=
  List.inj_on_of_nodup_map h.nodup hw hw' hkey

theorem exists_slot (h : List.Forall₂ Item.SetBy items slots) (hw : w ∈ items) :
    ∃ slot ∈ slots, w.SetBy slot := by
  induction h with
  | nil => cases hw
  | cons hfirst _ ih =>
    rcases List.mem_cons.1 hw with rfl | hw
    · exact ⟨_, List.mem_cons_self, hfirst⟩
    · obtain ⟨slot, hslot, hset⟩ := ih hw
      exact ⟨slot, List.mem_cons_of_mem _ hslot, hset⟩

theorem entry_eq_put (h : ItemsOf slots items) {slot : Slot σ} (hslot : slot ∈ slots) (v : Value) :
    Slot.entry slots s (slot.key, v) = slot.put v s := by
  rw [Slot.entry, Slot.find?_key (h.map_key ▸ h.nodup) hslot]

theorem entry_eq_ok (h : ItemsOf slots items) (hw : w ∈ items) {v : Value} :
    Slot.entry slots s (w.key, v) = .ok s' ↔ ∃ a, w.Means v a ∧ s' = w.set a s := by
  obtain ⟨slot, hslot, hkey, hput⟩ := exists_slot h.setBy hw
  rw [← hkey, h.entry_eq_put hslot]
  exact hput v s s'

theorem entry_of_not_mem (h : ItemsOf slots items) {key : String} (hkey : key ∉ items.map Item.key)
    (v : Value) : Slot.entry slots s (key, v) = .ok s := by
  have hnone : slots.find? (·.key = key) = none := by
    refine List.find?_eq_none.2 fun slot hslot heq => hkey ?_
    rw [← h.map_key, ← of_decide_eq_true heq]
    exact List.mem_map_of_mem hslot
  rw [Slot.entry, hnone]

/-- An entry for one of the items comes down to the rest of the entries, for it and for every other
item. -/
theorem given_cons (h : ItemsOf slots items) (hw : w ∈ items) {v : Value} {es : Entries}
    (hnew : es.lookup w.key = none) :
    (∃ a, w.Means v a ∧
      ∀ w' ∈ items, Given w'.Means (w'.get (w.set a s)) (es.lookup w'.key) (w'.get s')) ↔
    ∀ w' ∈ items, Given w'.Means (w'.get s) (((w.key, v) :: es).lookup w'.key) (w'.get s') := by
  have hself : ((w.key, v) :: es).lookup w.key = some v := List.lookup_cons_self
  constructor
  · rintro ⟨a, ha, hall⟩ w' hw'
    by_cases heq : w'.key = w.key
    · obtain rfl := h.eq_of_key_eq hw' hw heq
      have hget := hall w' hw'
      rw [hnew, h.get_set w' hw'] at hget
      rw [hself, show w'.get s' = a from hget]
      exact ha
    · have hget := hall w' hw'
      rwa [h.get_set_of_ne w hw w' hw' heq, ← lookup_cons_of_ne heq v] at hget
  · intro hall
    have hmeans := hall w hw
    rw [hself] at hmeans
    refine ⟨w.get s', hmeans, fun w' hw' => ?_⟩
    by_cases heq : w'.key = w.key
    · obtain rfl := h.eq_of_key_eq hw' hw heq
      rw [hnew, h.get_set w' hw']
      rfl
    · rw [h.get_set_of_ne w hw w' hw' heq, ← lookup_cons_of_ne heq v]
      exact hall w' hw'

/-- After entries without a key twice every item is what its key gives. -/
theorem entries_eq_ok (h : ItemsOf slots items) {es : Entries} (hes : (es.map Prod.fst).Nodup) :
    Slot.entries slots s es = .ok s' ↔
      ∀ w ∈ items, Given w.Means (w.get s) (es.lookup w.key) (w.get s') := by
  induction es generalizing s with
  | nil =>
    constructor
    · rintro ⟨⟩ w hw
      rfl
    · intro hall
      exact congrArg Except.ok (h.ext s s' fun w hw => (hall w hw).symm)
  | cons e es ih =>
    obtain ⟨key, v⟩ := e
    rw [List.map_cons, List.nodup_cons] at hes
    rw [Slot.entries, List.foldlM_cons, except_bind_eq_ok]
    by_cases hkey : key ∈ items.map Item.key
    · obtain ⟨w, hw, rfl⟩ := List.mem_map.1 hkey
      rw [← h.given_cons hw (Toml.Entries.lookup_eq_none.2 hes.1)]
      constructor
      · rintro ⟨s₁, hentry, hrest⟩
        obtain ⟨a, ha, rfl⟩ := (h.entry_eq_ok hw).1 hentry
        exact ⟨a, ha, (ih hes.2).1 hrest⟩
      · rintro ⟨a, ha, hall⟩
        exact ⟨w.set a s, (h.entry_eq_ok hw).2 ⟨a, ha, rfl⟩, (ih hes.2).2 hall⟩
    · have hlookup : ∀ w ∈ items, ((key, v) :: es).lookup w.key = es.lookup w.key := by
        intro w hw
        refine lookup_cons_of_ne (fun heq => hkey ?_) v es
        rw [← heq]
        exact List.mem_map_of_mem hw
      rw [h.entry_of_not_mem hkey]
      constructor
      · rintro ⟨_, ⟨⟩, hrest⟩ w hw
        rw [hlookup w hw]
        exact (ih hes.2).1 hrest w hw
      · intro hall
        refine ⟨s, rfl, (ih hes.2).2 fun w hw => ?_⟩
        rw [← hlookup w hw]
        exact hall w hw

/-- Reading values by their place is reading them by the keys of those places. -/
theorem foldlM_zip_eq (h : ItemsOf slots items) {some : List (Slot σ)} (hsub : some ⊆ slots)
    (vs : List Value) :
    (some.zip vs).foldlM (fun s p => p.1.put p.2 s) s =
      ((some.map Slot.key).zip vs).foldlM (Slot.entry slots) s := by
  induction some generalizing vs s with
  | nil => rfl
  | cons slot some ih =>
    cases vs with
    | nil => rfl
    | cons v vs =>
      rw [List.map_cons, List.zip_cons_cons, List.zip_cons_cons, List.foldlM_cons, List.foldlM_cons,
        h.entry_eq_put (hsub List.mem_cons_self)]
      exact bind_congr fun s => ih (List.subset_of_cons_subset hsub) vs

/-- Values by position are values by the keys in order. -/
theorem positions_eq (h : ItemsOf slots items) (vs : List Value) :
    Slot.positions slots s vs = Slot.entries slots s ((items.map Item.key).zip vs) := by
  rw [← h.map_key]
  exact h.foldlM_zip_eq (List.Subset.refl slots) vs

end ItemsOf

/-! ## Tables and arrays -/

/-- The entries that describe a section with these keys. An array gives its values to the keys in
order, and a date gives nothing. -/
def sectionEntries (keys : List String) : Value → Option Entries
  | .table _ es => some es
  | .array vs => some (keys.zip vs)
  | .datetime => some []
  | _ => none

theorem map_fst_zip_front {α β : Type} (as : List α) (bs : List β) :
    (as.zip bs).map Prod.fst <+: as := by
  induction as generalizing bs with
  | nil => exact List.prefix_refl []
  | cons a as ih =>
    cases bs with
    | nil => exact List.nil_prefix
    | cons b bs => exact List.prefix_cons_inj a |>.2 (ih bs)

theorem nodup_sectionEntries {keys : List String} (hkeys : keys.Nodup) {v : Value} (hv : v.Keyed)
    {es : Entries} (h : sectionEntries keys v = some es) : (es.map Prod.fst).Nodup := by
  unfold sectionEntries at h
  split at h
  · cases h
    exact (Toml.keyed_table.1 hv).nodup
  · cases h
    exact hkeys.sublist (map_fst_zip_front _ _).sublist
  · cases h
    exact List.nodup_nil
  · cases h

/-- A section is described by a value if its entries give every item. -/
theorem ItemsOf.sectionOf_eq_ok (h : ItemsOf slots items) {key : String} {v : Value} (hv : v.Keyed) :
    Slot.sectionOf slots key s v = .ok s' ↔
      ∃ es, sectionEntries (items.map Item.key) v = some es ∧
        ∀ w ∈ items, Given w.Means (w.get s) (es.lookup w.key) (w.get s') := by
  have hentries : Slot.sectionOf slots key s v = .ok s' ↔
      ∃ es, sectionEntries (items.map Item.key) v = some es ∧ Slot.entries slots s es = .ok s' := by
    unfold Slot.sectionOf sectionEntries
    split <;> simp [h.positions_eq, Slot.entries, pure, Except.pure]
  rw [hentries]
  refine exists_congr fun es => and_congr_right fun hes => ?_
  exact h.entries_eq_ok (nodup_sectionEntries h.nodup hv hes)

end

end LoadBench
