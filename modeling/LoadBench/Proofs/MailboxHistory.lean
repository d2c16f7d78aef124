import LoadBench.Proofs.Samples

/-!
# What a mailbox went through

Any number of parties may post requests to a mailbox and look into it. A lock makes their accesses
come one after the other, so what the mailbox went through is a list of them, in any order whatever.
From what the accesses answered alone one can tell what became of each request, and the mailbox and
its counts agree with it.
-/

namespace LoadBench

namespace Mailbox

inductive Access where
  | publish (r : Request)
  | take

inductive Entry where
  /-- A request was posted, and replaced one that was pending or did not. -/
  | posted (r : Request) (replaced : Bool)
  /-- A request was asked for, and there was one or not. -/
  | looked (r : Option Request)

namespace Entry

@[simp] def posted? : Entry → Option Request
  | .posted r _ => some r
  | .looked _ => none

@[simp] def taken? : Entry → Option Request
  | .posted _ _ => none
  | .looked r => r

end Entry

/-- An access with its answer, and the mailbox after it. -/
def enter (m : Mailbox) : Access → Entry × Mailbox
  | .publish r => (.posted r m.pending.isSome, m.publish r)
  | .take => (.looked m.pending, m.take)

def after (m : Mailbox) : List Access → Mailbox
  | [] => m
  | a :: as => (m.enter a).2.after as

def history (m : Mailbox) : List Access → List Entry
  | [] => []
  | a :: as => (m.enter a).1 :: (m.enter a).2.history as

theorem after_append (m : Mailbox) (as as' : List Access) :
    m.after (as ++ as') = (m.after as).after as' := by
  induction as generalizing m with
  | nil => rfl
  | cons a as ih => exact ih _

theorem history_append (m : Mailbox) (as as' : List Access) :
    m.history (as ++ as') = m.history as ++ (m.after as).history as' := by
  induction as generalizing m with
  | nil => rfl
  | cons a as ih => exact congrArg _ (ih _)

/-! ## What became of the requests -/

inductive Fate where
  | pending
  | taken
  | overwritten
  deriving DecidableEq, Repr

/-- What becomes of a request that was posted before these entries: the next request overwrites it,
unless it is taken before that. -/
def fateOf : List Entry → Fate
  | [] => .pending
  | .posted _ _ :: _ => .overwritten
  | .looked (some _) :: _ => .taken
  | .looked none :: es => fateOf es

/-- The requests that were posted, in order, each with what became of it. -/
def fates : List Entry → List (Request × Fate)
  | [] => []
  | .posted r _ :: es => (r, fateOf es) :: fates es
  | .looked _ :: es => fates es

def requests (es : List Entry) : List Request := es.filterMap Entry.posted?

def deliveries (es : List Entry) : List Request := es.filterMap Entry.taken?

def withFate (f : Fate) (es : List Entry) : List Request :=
  ((fates es).filter (·.2 == f)).map Prod.fst

def sinceTaken (es : List Entry) : List Entry := es.reverse.takeWhile (·.taken?.isNone)

/-- A request was posted since the last was taken. -/
def Refilled (es : List Entry) : Prop := ∃ e ∈ sinceTaken es, e.posted?.isSome

theorem map_fst_fates (es : List Entry) : (fates es).map Prod.fst = requests es := by
  induction es with
  | nil => rfl
  | cons e es ih =>
    cases e with
    | posted r replaced => simpa [fates, requests] using ih
    | looked r => rwa [fates, requests, List.filterMap_cons_none rfl]

@[simp] theorem requests_concat (es : List Entry) (e : Entry) :
    requests (es ++ [e]) = requests es ++ e.posted?.toList := by
  cases e <;> simp [requests]

@[simp] theorem deliveries_concat (es : List Entry) (e : Entry) :
    deliveries (es ++ [e]) = deliveries es ++ e.taken?.toList := by
  match e with
  | .posted _ _ | .looked none | .looked (some _) => simp [deliveries]

@[simp] theorem refilled_concat (es : List Entry) (e : Entry) :
    Refilled (es ++ [e]) ↔ e.taken? = none ∧ (e.posted?.isSome ∨ Refilled es) := by
  simp only [Refilled, sinceTaken, List.reverse_append, List.reverse_singleton,
    List.singleton_append, List.takeWhile_cons]
  cases e.taken? <;> simp

/-- What one more entry makes of a fate. -/
@[simp] def Fate.upon : Fate → Entry → Fate
  | .pending, .posted _ _ => .overwritten
  | .pending, .looked (some _) => .taken
  | .pending, .looked none => .pending
  | .taken, _ => .taken
  | .overwritten, _ => .overwritten

theorem Fate.upon_of_ne {f : Fate} (h : f ≠ .pending) (e : Entry) : f.upon e = f := by
  cases f with
  | pending => exact absurd rfl h
  | taken => rfl
  | overwritten => rfl

theorem fateOf_concat (es : List Entry) (e : Entry) : fateOf (es ++ [e]) = (fateOf es).upon e := by
  induction es with
  | nil =>
    match e with
    | .posted _ _ | .looked none | .looked (some _) => rfl
  | cons e' es ih =>
    match e' with
    | .posted _ _ | .looked (some _) => rfl
    | .looked none => exact ih

/-- One more entry settles the request that is pending. -/
theorem fates_concat (es : List Entry) (e : Entry) : fates (es ++ [e]) =
    (fates es).map (fun x => (x.1, x.2.upon e)) ++ e.posted?.toList.map (·, .pending) := by
  induction es with
  | nil => cases e <;> rfl
  | cons e' es ih =>
    cases e' with
    | posted r replaced => simp [fates, fateOf_concat, ih]
    | looked r => simpa [fates] using ih

/-! ## The books of a mailbox -/

/-- What a mailbox holds after entries: each request but the one pending is done with. -/
structure Kept (m : Mailbox) (es : List Entry) (done : List (Request × Fate)) : Prop where
  fates_eq : fates es = done ++ m.pending.toList.map (·, .pending)
  settled : ∀ x ∈ done, x.2 ≠ .pending
  last : m.pending = none → ∀ x ∈ done.getLast?, x.2 = .taken
  delivered : (done.filter (·.2 == .taken)).map Prod.fst = deliveries es
  published : m.published = (requests es).length
  taken : m.taken = done.countP (·.2 == .taken)
  overwritten : m.overwritten = done.countP (·.2 == .overwritten)
  refilled : m.pending.isSome ↔ Refilled es
  latest : ∀ r ∈ m.pending, (requests es).getLast? = some r

theorem kept_nil : Kept {} [] [] where
  fates_eq := rfl
  settled := nofun
  last := nofun
  delivered := rfl
  published := rfl
  taken := rfl
  overwritten := rfl
  refilled := by simp [Refilled, sinceTaken]
  latest := nofun

variable {m : Mailbox} {es : List Entry} {done : List (Request × Fate)}

/-- An entry leaves what is done as it is. -/
theorem Kept.fates_concat (h : m.Kept es done) (e : Entry) : fates (es ++ [e]) = done ++
    m.pending.toList.map (·, Fate.pending.upon e) ++ e.posted?.toList.map (·, .pending) := by
  have hdone : done.map (fun x => (x.1, x.2.upon e)) = done := by
    refine (List.map_congr_left fun x hx => ?_).trans (List.map_id done)
    rw [Fate.upon_of_ne (h.settled x hx), id]
  rw [Mailbox.fates_concat, h.fates_eq, List.map_append, hdone, List.map_map]
  rfl

theorem Kept.publish (h : m.Kept es done) (r : Request) :
    (m.publish r).Kept (es ++ [.posted r m.pending.isSome])
      (done ++ m.pending.toList.map (·, .overwritten)) where
  fates_eq := h.fates_concat _
  settled := by
    intro x hx
    simp only [List.mem_append, List.mem_map] at hx
    rcases hx with hx | ⟨_, _, rfl⟩
    · exact h.settled x hx
    · nofun
  last := nofun
  delivered := by cases hpending : m.pending <;> simp [h.delivered]
  published := by simp [Mailbox.publish, h.published]
  taken := by cases hpending : m.pending <;> simp [Mailbox.publish, h.taken]
  overwritten := by cases hpending : m.pending <;> simp [Mailbox.publish, h.overwritten, hpending]
  refilled := by simp [Mailbox.publish]
  latest := by simp [Mailbox.publish]

/-- A mailbox that is empty is as it was when it was looked into. -/
theorem Kept.look (h : m.Kept es done) (hpending : m.pending = none) :
    m.take.Kept (es ++ [.looked none]) done where
  fates_eq := by simpa [hpending, Mailbox.take] using h.fates_concat (.looked none)
  settled := h.settled
  last := fun _ => h.last hpending
  delivered := by simpa using h.delivered
  published := by simpa [Mailbox.take] using h.published
  taken := by simpa [Mailbox.take, hpending] using h.taken
  overwritten := h.overwritten
  refilled := by simpa [Mailbox.take, hpending] using h.refilled
  latest := nofun

theorem Kept.take (h : m.Kept es done) {r : Request} (hpending : m.pending = some r) :
    m.take.Kept (es ++ [.looked (some r)]) (done ++ [(r, .taken)]) where
  fates_eq := by simpa [hpending, Mailbox.take] using h.fates_concat (.looked (some r))
  settled := by
    intro x hx
    rcases List.mem_append.1 hx with hx | hx
    · exact h.settled x hx
    · simp [List.mem_singleton.1 hx]
  last := by simp
  delivered := by simp [h.delivered]
  published := by simpa [Mailbox.take] using h.published
  taken := by simp [Mailbox.take, h.taken, hpending]
  overwritten := by simpa [Mailbox.take] using h.overwritten
  refilled := by simp [Mailbox.take]
  latest := nofun

theorem Kept.enter (h : m.Kept es done) (a : Access) :
    ∃ done', (m.enter a).2.Kept (es ++ [(m.enter a).1]) done' := by
  cases a with
  | publish r => exact ⟨_, h.publish r⟩
  | take =>
    cases hpending : m.pending with
    | none => exact ⟨done, by simpa [Mailbox.enter, hpending] using h.look hpending⟩
    | some r => exact ⟨_, by simpa [Mailbox.enter, hpending] using h.take hpending⟩

theorem Kept.after (h : m.Kept es done) (as : List Access) :
    ∃ done', (m.after as).Kept (es ++ m.history as) done' := by
  induction as generalizing m es done with
  | nil => exact ⟨done, by simpa [Mailbox.after, history] using h⟩
  | cons a as ih =>
    obtain ⟨done', hfirst⟩ := h.enter a
    simpa [Mailbox.after, history] using ih hfirst

/-! ## The law -/

/-- What a mailbox and the answers it gives have to do with the entries before. -/
structure Lawful (m : Mailbox) (es : List Entry) : Prop where
  /-- Each request has one fate. -/
  fates_requests : (fates es).map Prod.fst = requests es
  /-- Those that were taken were taken once each, in order. -/
  withFate_taken : withFate .taken es = deliveries es
  /-- The one that is pending is in the mailbox. -/
  withFate_pending : withFate .pending es = m.pending.toList
  published : m.published = (requests es).length
  taken : m.taken = (withFate .taken es).length
  overwritten : m.overwritten = (withFate .overwritten es).length
  balance : m.published = m.taken + m.overwritten + if m.pending.isSome then 1 else 0
  /-- A look finds something if a request was posted since the last was taken. -/
  found_iff : (∃ r, (m.enter .take).1 = .looked (some r)) ↔ Refilled es
  /-- What it finds is the latest request. -/
  found : ∀ r, (m.enter .take).1 = .looked (some r) → (requests es).getLast? = some r
  /-- A request replaces another if the one before it was not taken. -/
  replaced_iff : ∀ r, (m.enter (.publish r)).1 = .posted r true ↔
    ∃ x, (fates es).getLast? = some x ∧ x.2 ≠ .taken
  deliveries_sublist : (deliveries es).Sublist (requests es)

theorem Kept.withFate_eq (h : m.Kept es done) (f : Fate) : withFate f es =
    (done.filter (·.2 == f)).map Prod.fst ++ if f = .pending then m.pending.toList else [] := by
  rw [withFate, h.fates_eq, List.filter_append, List.map_append]
  cases hpending : m.pending <;> cases f <;> simp

/-- The counters, the results and the slot can be read off a history that is kept. -/
theorem Kept.lawful (h : m.Kept es done) : m.Lawful es := by
  have hpending : done.filter (·.2 == .pending) = [] := by
    simpa using h.settled
  have hdelivered : withFate .taken es = deliveries es := by
    simpa [h.delivered] using h.withFate_eq .taken
  have hall : done.length = done.countP (·.2 == .taken) + done.countP (·.2 == .overwritten) := by
    rw [List.length_eq_countP_add_countP (·.2 == .taken)]
    refine congrArg _ (List.countP_congr fun x hx => ?_)
    have hsettled := h.settled x hx
    cases hf : x.2 <;> simp [hf] at hsettled ⊢
  constructor
  · exact map_fst_fates es
  · exact hdelivered
  · simpa [hpending] using h.withFate_eq .pending
  · exact h.published
  · simp [h.withFate_eq, h.taken, List.countP_eq_length_filter]
  · simp [h.withFate_eq, h.overwritten, List.countP_eq_length_filter]
  · rw [h.published, h.taken, h.overwritten, ← map_fst_fates, h.fates_eq]
    cases m.pending <;> simp [hall]
  · rw [← h.refilled, Option.isSome_iff_exists]
    simp [Mailbox.enter]
  · intro r hr
    exact h.latest r (by simpa [Mailbox.enter] using hr)
  · intro r
    rw [h.fates_eq]
    cases hm : m.pending with
    | none =>
      have hlast : ∀ x, done.getLast? = some x → x.2 = .taken := h.last hm
      simpa [Mailbox.enter, hm] using hlast
    | some old => simp [Mailbox.enter, hm]
  · rw [← hdelivered, withFate, ← map_fst_fates]
    exact List.filter_sublist.map _

/-- Whatever accesses a new mailbox goes through, in whatever order: each request that was posted is
taken, once, or overwritten, or the one that is pending, and the counts say so; the next look finds
the latest request if it was posted since the last was taken, and nothing else; the next request
replaces another if the one before it was not taken; and requests are taken in order. -/
theorem lawful_after (as : List Access) :
    (({} : Mailbox).after as).Lawful (({} : Mailbox).history as) := by
  obtain ⟨_, h⟩ := kept_nil.after as
  exact h.lawful

end Mailbox

/-! ## The mailbox of a bench -/

namespace Bench

open Mailbox

variable {b b₁ b' : Bench}

/-- The second bench comes from the first by accesses to the mailbox that post its further requests,
and by what else does not touch the mailbox. -/
def Accessed (b b' : Bench) : Prop := ∃ as, b'.mailbox = b.mailbox.after as ∧
  b'.requests.toList = b.requests.toList ++ Mailbox.requests (b.mailbox.history as)

theorem Accessed.of_same (hmailbox : b'.mailbox = b.mailbox)
    (hrequests : b'.requests = b.requests) : b.Accessed b' :=
  ⟨[], hmailbox, by simp [hrequests, history, Mailbox.requests]⟩

theorem Accessed.trans (h : b.Accessed b₁) (h' : b₁.Accessed b') : b.Accessed b' := by
  obtain ⟨as, hmailbox, hrequests⟩ := h
  obtain ⟨as', hmailbox', hrequests'⟩ := h'
  refine ⟨as ++ as', ?_, ?_⟩
  · rw [hmailbox', hmailbox, after_append]
  · rw [hrequests', hrequests, hmailbox, history_append, List.append_assoc]
    simp [Mailbox.requests]

theorem Accessed.of_take (hmailbox : b'.mailbox = b.mailbox.take)
    (hrequests : b'.requests = b.requests) : b.Accessed b' :=
  ⟨[.take], hmailbox, by simp [hrequests, history, Mailbox.enter, Mailbox.requests]⟩

theorem accessed_afterTurn (b : Bench) (t : Turn) : b.Accessed (b.afterTurn t) := by
  cases t with
  | serve =>
    cases hpending : b.mailbox.pending with
    | none =>
      rw [afterTurn, served_of_pending_eq_none hpending]
      exact .of_same rfl rfl
    | some r =>
      obtain ⟨_, _, _, _, heq⟩ := served_eq hpending
      rw [afterTurn, heq]
      exact .of_take rfl rfl
  | discard => exact .of_take rfl rfl

theorem accessed_afterTurns (b : Bench) (ts : List Turn) : b.Accessed (ts.foldl afterTurn b) := by
  induction ts generalizing b with
  | nil => exact .of_same rfl rfl
  | cons t ts ih => exact (b.accessed_afterTurn t).trans (ih _)

theorem accessed_posted (b : Bench) (r : Request) : b.Accessed (b.posted r) := by
  obtain ⟨_, heq⟩ := posted_eq b r
  refine ⟨[.publish r], by rw [heq]; rfl, ?_⟩
  simp [heq, history, Mailbox.enter, Mailbox.requests]

theorem accessed_apply (b : Bench) (e : Effect) : b.Accessed (e.apply b) := by
  cases e with
  | occasion o =>
    have hcounted : b.Accessed { b with occasions := b.occasions + 1 } := .of_same rfl rfl
    exact hcounted.trans (accessed_afterTurns _ _)
  | post r => exact b.accessed_posted r
  | change changes =>
    simp only [Effect.apply]
    split <;> exact .of_same rfl rfl
  | _ => exact .of_same rfl rfl

/-- Whatever effects a bench has, its mailbox is lawful: the requests of its moves and the turns of
its sampling are accesses in some order. -/
theorem Reaches.lawful {K : Effect → Prop} (h : Reaches K b b') (hnew : b.mailbox = {})
    (hnone : b.requests = #[]) :
    ∃ es, Mailbox.requests es = b'.requests.toList ∧ b'.mailbox.Lawful es := by
  obtain ⟨as, hmailbox, hrequests⟩ := h.invariant (P := b.Accessed)
    (fun e _ c hc => hc.trans (c.accessed_apply e)) (.of_same rfl rfl)
  refine ⟨b.mailbox.history as, by simpa [hnone] using hrequests.symm, ?_⟩
  obtain ⟨_, hkept⟩ := kept_nil.after as
  rw [hmailbox, hnew]
  exact hkept.lawful

end Bench

end LoadBench
