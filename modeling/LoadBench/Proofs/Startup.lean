import LoadBench.Operator.StartGate
import LoadBench.Proofs.Desk

/-!
# Lines around the start

Readers of operator lines run beside the thread that waits at the start gate and then runs the
program. They share two flags: a line that asks for the start raises the one, and the run raises the
other when the gate has opened. Each look at a flag and each change of one is a step of its own, and
in whatever order the threads take their steps, a line that asks for the start is never a reply. A
session takes its lines in one of these orders.
-/

namespace LoadBench

/-! ## Readers -/

structure HeardLine where
  line : String
  /-- Whether the reader found that the run has started. -/
  found : Bool
  /-- The reply that it sent, if it sent one. -/
  sent : Option Reply

/-- The reply that a line is. Before the start it is none. -/
def HeardLine.due (h : HeardLine) : Option Reply := if h.found then Reply.ofLine h.line else none

/-- How far a reader is with its next line. -/
inductive Attention where
  | waiting
  | got (line : String)
  /-- The reader has looked whether the run has started. -/
  | checked (line : String) (found : Bool)
  /-- The reader has no more lines, or nobody receives its replies. -/
  | closed

/-- A reader of operator lines. -/
structure Listener where
  unread : List String
  attention : Attention := .waiting
  /-- The lines that are done with, in order. -/
  heard : List HeardLine := []

namespace Listener

def inHand (r : Listener) : List String :=
  match r.attention with
  | .got l => [l]
  | .checked l _ => [l]
  | _ => []

/-- What the reader has found, line by line. -/
def finds (r : Listener) : List Bool :=
  r.heard.map HeardLine.found ++
    match r.attention with
    | .checked _ found => [found]
    | _ => []

def sent (r : Listener) : List Reply := r.heard.filterMap HeardLine.sent

def done (r : Listener) (h : HeardLine) (next : Attention) : Listener :=
  { r with heard := r.heard ++ [h], attention := next }

/-- One step of a reader; says whether it asks for the start. Where its replies are not received any
more the reader gives up. -/
def step (r : Listener) (started received : Bool) : Bool × Listener :=
  match r.attention with
  | .waiting =>
    match r.unread with
    | [] => (false, { r with attention := .closed })
    | l :: ls => (false, { r with unread := ls, attention := .got l })
  | .got l => (false, { r with attention := .checked l started })
  | .checked l found =>
    match forward found l with
    | .startRequest => (true, r.done ⟨l, found, none⟩ .waiting)
    | .ignored => (false, r.done ⟨l, found, none⟩ .waiting)
    | .reply v =>
      if received then (false, r.done ⟨l, found, some v⟩ .waiting)
      else (false, r.done ⟨l, found, none⟩ .closed)
  | .closed => (false, r)

end Listener

/-! ## The start-up -/

inductive Progress where
  /-- At the gate, about to look at the first flag. -/
  | looking
  /-- At the gate, with what the first flag was. -/
  | looked (autostart : Bool)
  | pausing
  /-- Through the gate. -/
  | opened (trigger : Nat)
  /-- The run has started. -/
  | running
  /-- Replies are not received any more. -/
  | ended

namespace Progress

def pastGate : Progress → Bool
  | .opened _ | .running | .ended => true
  | _ => false

def hasStarted : Progress → Bool
  | .running | .ended => true
  | _ => false

def isOver : Progress → Bool
  | .ended => true
  | _ => false

end Progress

/-- The threads and the flags that they share. -/
structure Startup where
  autostart : Bool
  /-- A line has asked for the start. -/
  requested : Bool := false
  started : Bool := false
  progress : Progress := .looking
  readers : List Listener

inductive Thread where
  | main
  | reader (i : Nat)

namespace Startup

/-- The threads before their first step, each reader with its lines. -/
def initial (autostart : Bool) (texts : List (List String)) : Startup where
  autostart := autostart
  readers := texts.map fun lines => { unread := lines }

def mainStep (s : Startup) : Startup :=
  match s.progress with
  | .looking => { s with progress := .looked s.autostart }
  | .looked autostart =>
    match (StartGate.pass Trigger.check [.flag autostart, .flag s.requested]).1 with
    | some trigger => { s with progress := .opened trigger }
    | none => { s with progress := .pausing }
  | .pausing => { s with progress := .looking }
  | .opened _ => { s with progress := .running, started := true }
  | .running => { s with progress := .ended }
  | .ended => s

def readerStep (s : Startup) (i : Nat) : Startup :=
  match s.readers[i]? with
  | none => s
  | some r =>
    let (asks, r) := r.step s.started (!s.progress.isOver)
    { s with requested := s.requested || asks, readers := s.readers.set i r }

def step (s : Startup) : Thread → Startup
  | .main => s.mainStep
  | .reader i => s.readerStep i

def run (s : Startup) (order : List Thread) : Startup := order.foldl step s

def Asked (s : Startup) : Prop := ∃ r ∈ s.readers, ∃ h ∈ r.heard, h.found = false

end Startup

/-! ## What holds of a reader -/

namespace Listener

/-- What is true of a reader of these lines at every step. -/
structure Orderly (r : Listener) (lines : List String) (started isOver : Bool) : Prop where
  order : r.heard.map HeardLine.line ++ (r.inHand ++ r.unread) = lines
  /-- Once the start is found it is found ever after, and it has happened. -/
  sorted : (r.finds ++ [started]).Pairwise fun f g => f = true → g = true
  /-- All replies are sent but for one, after which nobody receives them. -/
  sends : (∀ h ∈ r.heard, h.sent = h.due) ∨
    isOver = true ∧ r.attention = .closed ∧
      ∃ before h, r.heard = before ++ [h] ∧ h.sent = none ∧ ∀ h' ∈ before, h'.sent = h'.due

variable {r : Listener} {lines : List String} {started isOver : Bool}

theorem Orderly.begins (h : r.Orderly lines started isOver) : r.Orderly lines true isOver where
  order := h.order
  sorted := by
    rw [List.pairwise_append]
    exact ⟨(List.pairwise_append.1 h.sorted).1, List.pairwise_singleton _ _, fun _ _ _ hg _ =>
      List.mem_singleton.1 hg⟩
  sends := h.sends

theorem Orderly.ends (h : r.Orderly lines started isOver) : r.Orderly lines started true where
  order := h.order
  sorted := h.sorted
  sends := h.sends.imp_right fun hlast => ⟨rfl, hlast.2⟩

/-- While a reader goes on, every reply of its was sent. -/
theorem Orderly.sent_eq_due (h : r.Orderly lines started isOver) (hopen : r.attention ≠ .closed) :
    ∀ x ∈ r.heard, x.sent = x.due :=
  h.sends.resolve_right fun hlast => hopen hlast.2.1

/-- A line that asks for the start came before it. -/
theorem forward_startRequest {found : Bool} {line : String}
    (h : forward found line = .startRequest) : found = false := by
  cases found with
  | false => rfl
  | true =>
    unfold forward at h
    cases hline : Reply.ofLine line <;> simp [hline] at h

theorem due_of_startRequest {found : Bool} {line : String} {sent : Option Reply}
    (h : forward found line = .startRequest) : (HeardLine.mk line found sent).due = none := by
  rw [HeardLine.due, forward_startRequest h]
  rfl

theorem due_of_ignored {found : Bool} {line : String} {sent : Option Reply}
    (h : forward found line = .ignored) : (HeardLine.mk line found sent).due = none := by
  unfold forward at h
  cases found with
  | false => rfl
  | true => cases hline : Reply.ofLine line <;> simp_all [HeardLine.due]

theorem due_of_reply {found : Bool} {line : String} {sent : Option Reply} {v : Reply}
    (h : forward found line = .reply v) : (HeardLine.mk line found sent).due = some v := by
  unfold forward at h
  cases found with
  | false => cases h
  | true => cases hline : Reply.ofLine line <;> simp_all [HeardLine.due]

/-- A reader that is done with a line as it should be stays orderly. -/
theorem Orderly.done {l : String} {found : Bool} (h : r.Orderly lines started isOver)
    (hat : r.attention = .checked l found) {sent : Option Reply} {next : Attention}
    (hnext : next = .waiting ∨ next = .closed)
    (hsent : sent = (HeardLine.mk l found sent).due ∨
      isOver = true ∧ next = .closed ∧ sent = none) :
    (r.done ⟨l, found, sent⟩ next).Orderly lines started isOver := by
  have hbefore := h.sent_eq_due (by simp [hat])
  have hinHand : (r.done ⟨l, found, sent⟩ next).inHand = [] := by
    rcases hnext with rfl | rfl <;> rfl
  have hfinds : (r.done ⟨l, found, sent⟩ next).finds = r.finds := by
    rcases hnext with rfl | rfl <;> simp [Listener.done, finds, hat]
  constructor
  · rw [hinHand, ← h.order]
    simp [Listener.done, inHand, hat]
  · rw [hfinds]
    exact h.sorted
  · rcases hsent with hsent | ⟨hover, rfl, rfl⟩
    · refine .inl fun h' hh' => ?_
      rcases List.mem_append.1 hh' with hh' | hh'
      · exact hbefore h' hh'
      · rw [List.mem_singleton.1 hh']
        exact hsent
    · exact .inr ⟨hover, rfl, r.heard, _, rfl, rfl, hbefore⟩

/-- A step of a reader goes on with its line, or reads the next one. -/
theorem Orderly.step (h : r.Orderly lines started isOver) :
    (r.step started (!isOver)).2.Orderly lines started isOver := by
  unfold Listener.step
  cases hat : r.attention with
  | waiting =>
    have hopen := h.sent_eq_due (by simp [hat])
    have horder := h.order
    have hsorted := h.sorted
    simp only [inHand, finds, hat] at horder hsorted
    cases hunread : r.unread with
    | nil =>
      rw [hunread] at horder
      exact ⟨by simpa [inHand, hunread] using horder, by simpa [finds] using hsorted, .inl hopen⟩
    | cons l ls =>
      rw [hunread] at horder
      exact ⟨horder, hsorted, .inl hopen⟩
  | got l =>
    have horder := h.order
    have hsorted := h.sorted
    simp only [inHand, finds, hat, List.append_nil] at horder hsorted
    refine ⟨horder, ?_, .inl (h.sent_eq_due (by simp [hat]))⟩
    simp only [finds]
    rw [List.pairwise_append]
    refine ⟨hsorted, List.pairwise_singleton _ _, fun f hf g hg hfound => ?_⟩
    -- what was found before is so now, and the new find is the flag itself
    rw [List.mem_singleton.1 hg]
    rcases List.mem_append.1 hf with hf | hf
    · exact (List.pairwise_append.1 hsorted).2.2 f hf started (List.mem_singleton_self _) hfound
    · rw [← List.mem_singleton.1 hf, hfound]
  | checked l found =>
    simp only
    cases hforward : forward found l with
    | startRequest => exact h.done hat (.inl rfl) (.inl (due_of_startRequest hforward).symm)
    | ignored => exact h.done hat (.inl rfl) (.inl (due_of_ignored hforward).symm)
    | reply v =>
      cases isOver with
      | false => exact h.done hat (.inl rfl) (.inl (due_of_reply hforward).symm)
      | true => exact h.done hat (.inr rfl) (.inr ⟨rfl, rfl, rfl⟩)
  | closed => exact h

/-- A step of a reader loses nothing that was heard. -/
theorem heard_step (r : Listener) (started received : Bool) {h : HeardLine} (hh : h ∈ r.heard) :
    h ∈ (r.step started received).2.heard := by
  have hdone (x : HeardLine) (next : Attention) : h ∈ (r.done x next).heard :=
    List.mem_append_left _ hh
  unfold step
  cases r.attention with
  | waiting => cases r.unread <;> exact hh
  | got l => exact hh
  | checked l found =>
    simp only
    cases forward found l with
    | startRequest | ignored => exact hdone _ _
    | reply v => cases received <;> exact hdone _ _
  | closed => exact hh

/-- A reader that asks for the start has heard a line before the start. -/
theorem exists_of_asks {received : Bool} (h : (r.step started received).1 = true) :
    ∃ x ∈ (r.step started received).2.heard, x.found = false := by
  unfold step at h ⊢
  cases hat : r.attention with
  | waiting => cases hunread : r.unread <;> simp [hat, hunread] at h
  | got l => simp [hat] at h
  | checked l found =>
    simp only [hat] at h ⊢
    cases hforward : forward found l with
    | startRequest =>
      exact ⟨⟨l, found, none⟩, List.mem_append_right _ (List.mem_singleton_self _),
        forward_startRequest hforward⟩
    | ignored => simp [hforward] at h
    | reply v => cases received <;> simp [hforward] at h
  | closed => simp [hat] at h

end Listener

/-! ## What holds of the start-up -/

namespace Startup

variable {s : Startup} {autostart : Bool} {texts : List (List String)}

/-- What is true at every step. -/
structure Orderly (s : Startup) (autostart : Bool) (texts : List (List String)) : Prop where
  configured : s.autostart = autostart
  looked : ∀ a, s.progress = .looked a → a = autostart
  requested : s.requested = true → s.Asked
  /-- The gate opens only for one of its triggers. -/
  opened : s.progress.pastGate = true → autostart = true ∨ s.Asked
  started : s.started = s.progress.hasStarted
  length : s.readers.length = texts.length
  readers : ∀ (i : Nat) (r : Listener), s.readers[i]? = some r → ∃ lines, texts[i]? = some lines ∧
    r.Orderly lines s.started s.progress.isOver

theorem initial_orderly (autostart : Bool) (texts : List (List String)) :
    (initial autostart texts).Orderly autostart texts where
  configured := rfl
  looked := nofun
  requested := nofun
  opened := nofun
  started := rfl
  length := List.length_map _
  readers := by
    intro i r hr
    simp only [initial, List.getElem?_map, Option.map_eq_some_iff] at hr
    obtain ⟨lines, hlines, rfl⟩ := hr
    exact ⟨lines, hlines, rfl, List.pairwise_singleton _ _, .inl nofun⟩

/-- A pass that opens the gate finds one of the flags up. -/
theorem flag_of_pass {a q : Bool} {trigger : Nat}
    (h : (StartGate.pass Trigger.check [.flag a, .flag q]).1 = some trigger) :
    a = true ∨ q = true := by
  cases a with
  | true => exact .inl rfl
  | false =>
    cases q with
    | true => exact .inr rfl
    | false => cases h

/-- A step of the main thread goes on with the start, and nothing is undone. -/
theorem Orderly.mainStep (h : s.Orderly autostart texts) : s.mainStep.Orderly autostart texts := by
  obtain ⟨hautostart, hlooked, hrequested, hopened, hstarted, hlength, hreaders⟩ := h
  unfold Startup.mainStep
  cases hat : s.progress with
  | looking =>
    rw [hat] at hstarted hreaders
    exact ⟨hautostart, fun a ha => by cases ha; exact hautostart, hrequested, nofun, hstarted, hlength,
      hreaders⟩
  | looked a =>
    rw [hat] at hstarted hreaders
    obtain rfl : a = autostart := hlooked a hat
    cases hpass : (StartGate.pass Trigger.check [.flag a, .flag s.requested]).1 with
    | none =>
      simp only [hpass]
      exact ⟨hautostart, nofun, hrequested, nofun, hstarted, hlength, hreaders⟩
    | some trigger =>
      simp only [hpass]
      exact ⟨hautostart, nofun, hrequested, fun _ => (flag_of_pass hpass).imp_right hrequested,
        hstarted, hlength, hreaders⟩
  | pausing =>
    rw [hat] at hstarted hreaders
    exact ⟨hautostart, nofun, hrequested, nofun, hstarted, hlength, hreaders⟩
  | opened trigger =>
    rw [hat] at hopened hreaders
    refine ⟨hautostart, nofun, hrequested, hopened, rfl, hlength, fun i r hr => ?_⟩
    obtain ⟨lines, hlines, horderly⟩ := hreaders i r hr
    exact ⟨lines, hlines, horderly.begins⟩
  | running =>
    rw [hat] at hopened hstarted hreaders
    refine ⟨hautostart, nofun, hrequested, hopened, hstarted, hlength, fun i r hr => ?_⟩
    obtain ⟨lines, hlines, horderly⟩ := hreaders i r hr
    exact ⟨lines, hlines, horderly.ends⟩
  | ended => exact ⟨hautostart, hlooked, hrequested, hopened, hstarted, hlength, hreaders⟩

theorem Asked.readerStep (h : s.Asked) (i : Nat) : (s.readerStep i).Asked := by
  unfold Startup.readerStep
  cases hr : s.readers[i]? with
  | none => exact h
  | some r =>
    obtain ⟨r', hr', x, hx, hfound⟩ := h
    obtain ⟨j, hj⟩ := List.getElem?_of_mem hr'
    have hi : i < s.readers.length := (List.getElem?_eq_some_iff.1 hr).1
    by_cases hij : i = j
    · subst hij
      obtain rfl : r = r' := Option.some.inj (hr.symm.trans hj)
      exact ⟨_, List.mem_set hi _, x, r.heard_step _ _ hx, hfound⟩
    · have hkept : (s.readers.set i (r.step s.started (!s.progress.isOver)).2)[j]? = some r' := by
        rw [List.getElem?_set_ne hij, hj]
      exact ⟨r', List.mem_of_getElem? hkept, x, hx, hfound⟩

/-- A step of one reader leaves every other reader as it is. -/
theorem Orderly.readerStep (h : s.Orderly autostart texts) (i : Nat) :
    (s.readerStep i).Orderly autostart texts := by
  have hasked (ha : s.Asked) := ha.readerStep i
  obtain ⟨hautostart, hlooked, hrequested, hopened, hstarted, hlength, hreaders⟩ := h
  unfold Startup.readerStep at hasked ⊢
  cases hr : s.readers[i]? with
  | none => exact ⟨hautostart, hlooked, hrequested, hopened, hstarted, hlength, hreaders⟩
  | some r =>
    simp only [hr] at hasked ⊢
    have hi : i < s.readers.length := (List.getElem?_eq_some_iff.1 hr).1
    refine ⟨hautostart, hlooked, fun hq => ?_, fun hgate => (hopened hgate).imp_right hasked, hstarted,
      (List.length_set ..).trans hlength, fun j r' hr' => ?_⟩
    · rcases Bool.or_eq_true_iff.1 hq with hq | hasks
      · exact hasked (hrequested hq)
      · exact ⟨_, List.mem_set hi _, Listener.exists_of_asks hasks⟩
    · by_cases hij : i = j
      · subst hij
        rw [List.getElem?_set_self hi] at hr'
        cases hr'
        obtain ⟨lines, hlines, horderly⟩ := hreaders i r hr
        exact ⟨lines, hlines, horderly.step⟩
      · rw [List.getElem?_set_ne hij] at hr'
        exact hreaders j r' hr'

theorem Orderly.step (h : s.Orderly autostart texts) (t : Thread) :
    (s.step t).Orderly autostart texts := by
  cases t with
  | main => exact h.mainStep
  | reader i => exact h.readerStep i

theorem Orderly.run (h : s.Orderly autostart texts) (order : List Thread) :
    (s.run order).Orderly autostart texts := by
  induction order generalizing s with
  | nil => exact h
  | cons t order ih => exact ih (h.step t)

/-- The latch is never reset. -/
theorem started_step (h : s.started = true) (t : Thread) : (s.step t).started = true := by
  cases t with
  | main =>
    rw [step, mainStep]
    cases s.progress with
    | looked a =>
      simp only
      cases (StartGate.pass Trigger.check [.flag a, .flag s.requested]).1 <;> exact h
    | opened trigger => rfl
    | _ => exact h
  | reader i =>
    rw [step, readerStep]
    cases s.readers[i]? <;> exact h

/-- A run that has started stays so. -/
theorem started_run (h : s.started = true) (order : List Thread) : (s.run order).started = true := by
  induction order generalizing s with
  | nil => exact h
  | cons t order ih => exact ih (started_step h t)

end Startup

/-! ## Replies -/

namespace Listener

/-- What becomes of the lines of a reader. -/
structure Faithful (r : Listener) (lines : List String) (isOver : Bool) : Prop where
  order : r.heard.map HeardLine.line ++ (r.inHand ++ r.unread) = lines
  silent : ∀ h ∈ r.heard, h.found = false → h.sent = none
  answers : isOver = false → ∀ h ∈ r.heard, h.found = true → h.sent = Reply.ofLine h.line
  /-- From some line on the replies are what the lines are, in order; the last of them may be lost
  where replies are not received any more. -/
  replies : ∃ early late, r.heard = early ++ late ∧ (∀ h ∈ early, h.found = false) ∧
    (∀ h ∈ late, h.found = true) ∧
    r.sent <+: (late.map HeardLine.line).filterMap Reply.ofLine ∧
    (isOver = false → r.sent = (late.map HeardLine.line).filterMap Reply.ofLine)

/-- Lines that find the start only after others that do not, fall into two parts. -/
theorem exists_early_late {hs : List HeardLine}
    (h : hs.Pairwise fun x y => x.found = true → y.found = true) :
    ∃ early late, hs = early ++ late ∧ (∀ x ∈ early, x.found = false) ∧
      ∀ x ∈ late, x.found = true := by
  induction hs with
  | nil => exact ⟨[], [], rfl, nofun, nofun⟩
  | cons x hs ih =>
    obtain ⟨hx, hrest⟩ := List.pairwise_cons.1 h
    cases hfound : x.found with
    | true =>
      refine ⟨[], x :: hs, rfl, nofun, fun y hy => ?_⟩
      rcases List.mem_cons.1 hy with rfl | hy
      · exact hfound
      · exact hx y hy hfound
    | false =>
      obtain ⟨early, late, rfl, hearly, hlate⟩ := ih hrest
      refine ⟨x :: early, late, rfl, fun y hy => ?_, hlate⟩
      rcases List.mem_cons.1 hy with rfl | hy
      · exact hfound
      · exact hearly y hy

/-- The lines before the start are due nothing, those after it what they say. -/
theorem filterMap_due {early late : List HeardLine} (hearly : ∀ h ∈ early, h.found = false)
    (hlate : ∀ h ∈ late, h.found = true) :
    (early ++ late).filterMap HeardLine.due =
      (late.map HeardLine.line).filterMap Reply.ofLine := by
  have hnone : early.filterMap HeardLine.due = [] := by
    rw [List.filterMap_eq_nil_iff]
    intro h hh
    rw [HeardLine.due, hearly h hh]
    rfl
  have hlines : late.filterMap HeardLine.due = late.filterMap (Reply.ofLine ∘ HeardLine.line) := by
    refine List.filterMap_congr fun h hh => ?_
    rw [HeardLine.due, hlate h hh]
    rfl
  rw [List.filterMap_append, hnone, hlines, List.filterMap_map, List.nil_append]

variable {r : Listener} {lines : List String} {started isOver : Bool}

/-- A line that was heard was answered as it should be, or its reply was lost in the end. -/
theorem Orderly.sent_of_mem (h : r.Orderly lines started isOver) {x : HeardLine}
    (hx : x ∈ r.heard) : x.sent = x.due ∨ isOver = true ∧ x.sent = none := by
  rcases h.sends with hsends | ⟨hover, _, before, last, heq, hlast, hsends⟩
  · exact .inl (hsends x hx)
  · rw [heq] at hx
    rcases List.mem_append.1 hx with hx | hx
    · exact .inl (hsends x hx)
    · rw [List.mem_singleton.1 hx]
      exact .inr ⟨hover, hlast⟩

/-- What was sent is a front of what is due, and all of it between two lines. -/
theorem Orderly.sent_front (h : r.Orderly lines started isOver) :
    r.sent <+: r.heard.filterMap HeardLine.due ∧
      (isOver = false → r.sent = r.heard.filterMap HeardLine.due) := by
  rcases h.sends with hsends | ⟨rfl, _, before, last, heq, hlast, hsends⟩
  · have hsame : r.sent = r.heard.filterMap HeardLine.due := List.filterMap_congr hsends
    exact ⟨hsame ▸ List.prefix_rfl, fun _ => hsame⟩
  · have hsame : r.sent = before.filterMap HeardLine.due := by
      rw [sent, heq, List.filterMap_append, List.filterMap_congr hsends]
      simp [hlast]
    rw [hsame, heq, List.filterMap_append]
    exact ⟨List.prefix_append _ _, nofun⟩

theorem Orderly.faithful (h : r.Orderly lines started isOver) : r.Faithful lines isOver := by
  have hpairwise : r.heard.Pairwise fun x y => x.found = true → y.found = true := by
    have hfinds := (List.pairwise_append.1 h.sorted).1
    exact List.pairwise_map.1 (List.pairwise_append.1 hfinds).1
  obtain ⟨early, late, heq, hearly, hlate⟩ := exists_early_late hpairwise
  obtain ⟨hfront, hsame⟩ := h.sent_front
  rw [heq, filterMap_due hearly hlate] at hfront hsame
  refine ⟨h.order, fun x hx hfound => ?_, fun hover x hx hfound => ?_, early, late, heq, hearly, hlate,
    hfront, hsame⟩
  · rcases h.sent_of_mem hx with hsent | ⟨_, hsent⟩
    · rw [hsent, HeardLine.due, hfound]
      rfl
    · exact hsent
  · rcases h.sent_of_mem hx with hsent | ⟨htrue, _⟩
    · rw [hsent, HeardLine.due, hfound]
      rfl
    · rw [hover] at htrue
      cases htrue

end Listener

namespace Startup

/-- In whatever order the threads take their steps: the gate opens for the configuration or for a
line that a reader has heard, the run starts behind the gate and has then started for good, and each
reader sends the replies that its lines are from some line on, and nothing for the lines before. -/
theorem replies_after_start (autostart : Bool) (texts : List (List String)) (order : List Thread) :
    let s := (initial autostart texts).run order
    (s.progress.pastGate = true → autostart = true ∨ s.Asked) ∧
      (s.started = true → s.progress.pastGate = true ∧ ∀ later, (s.run later).started = true) ∧
      s.readers.length = texts.length ∧
      ∀ (i : Nat) (r : Listener), s.readers[i]? = some r → ∃ lines, texts[i]? = some lines ∧
        r.Faithful lines s.progress.isOver := by
  intro s
  have horderly : s.Orderly autostart texts := (initial_orderly autostart texts).run order
  refine ⟨horderly.opened, fun hstarted => ⟨?_, started_run hstarted⟩, horderly.length,
    fun i r hr => ?_⟩
  · rw [horderly.started] at hstarted
    cases hat : s.progress <;> simp_all [Progress.hasStarted, Progress.pastGate]
  · obtain ⟨lines, hlines, hreader⟩ := horderly.readers i r hr
    exact ⟨lines, hlines, hreader.faithful⟩

/-- An empty line starts the run and is no reply, and the number after it is one. -/
theorem number_after_start :
    let order := [.reader 0, .reader 0, .reader 0, .main, .main, .main, .reader 0, .reader 0,
      .reader 0]
    let s := (initial false [["", "2.5"]]).run order
    s.Asked ∧ s.started = true ∧
      ∃ r, s.readers[0]? = some r ∧ r.Faithful ["", "2.5"] false ∧ r.sent.length = 1 := by
  intro order s
  obtain ⟨hopened, _, _, hreaders⟩ := replies_after_start false [["", "2.5"]] order
  have hgate : s.progress.pastGate = true := by decide +kernel
  have hreader : (s.readers[0]?.map (·.sent.length)) = some 1 := by decide +kernel
  obtain ⟨r, hr, hsent⟩ := Option.map_eq_some_iff.1 hreader
  obtain ⟨lines, hlines, hfaithful⟩ := hreaders 0 r hr
  cases hlines
  exact ⟨(hopened hgate).resolve_left nofun, by decide +kernel, r, hr, hfaithful, hsent⟩

/-! ## Lines typed in turn

A session takes each line as soon as it is typed, and its first line, unless the configuration starts
the run, opens the gate. This is one of the orders above, and it comes to what a session comes to. -/

/-- One reader that has heard some lines and waits for others. -/
def listening (s : Startup) (unread : List String) (heard : List HeardLine) : Startup :=
  { s with readers := [{ unread, heard }] }

def takeLines (n : Nat) : List Thread := (List.replicate n (List.replicate 3 (.reader 0))).flatten

/-- The order of a session: a line that has to open the gate, the gate, and the other lines. -/
def inTurn (autostart : Bool) (lines : List String) : List Thread :=
  let first := if autostart then 0 else min 1 lines.length
  takeLines first ++ (List.replicate 3 .main ++ takeLines (lines.length - first))

theorem inTurn_cons (l : String) (ls : List String) : inTurn false (l :: ls) =
    List.replicate 3 (.reader 0) ++ (List.replicate 3 .main ++ takeLines ls.length) := by
  simp [inTurn, takeLines]

theorem inTurn_of_autostart (lines : List String) :
    inTurn true lines = List.replicate 3 .main ++ takeLines lines.length := rfl

theorem run_append (s : Startup) (early late : List Thread) :
    s.run (early ++ late) = (s.run early).run late := List.foldl_append

theorem takeLines_succ (n : Nat) :
    takeLines (n + 1) = List.replicate 3 (.reader 0) ++ takeLines n := rfl

/-- A reader takes a line in three steps. Before the start the line is a request. -/
theorem run_reader (s : Startup) (hover : s.progress.isOver = false) (l : String)
    (ls : List String) (heard : List HeardLine) :
    (s.listening (l :: ls) heard).run (List.replicate 3 (.reader 0)) =
      { s with requested := s.requested || !s.started }.listening ls
        (heard ++ [HeardLine.mk l s.started (if s.started then Reply.ofLine l else none)]) := by
  obtain ⟨autostart, requested, started, progress, readers⟩ := s
  cases started with
  | false =>
    simp [run, List.replicate_succ, step, readerStep, listening, Listener.step, Listener.done, forward]
  | true =>
    cases hreply : Reply.ofLine l <;>
      simp_all [run, List.replicate_succ, step, readerStep, listening, Listener.step, Listener.done,
        forward]

/-- After the start every line is taken for the reply that it is. -/
theorem run_takeLines (s : Startup) (hstarted : s.started = true) (hover : s.progress.isOver = false)
    (ls : List String) (heard : List HeardLine) :
    (s.listening ls heard).run (takeLines ls.length) =
      s.listening [] (heard ++ ls.map fun l => HeardLine.mk l true (Reply.ofLine l)) := by
  induction ls generalizing heard with
  | nil => rw [List.map_nil, List.append_nil]; rfl
  | cons l ls ih =>
    have hasked : { s with requested := s.requested || !s.started } = s := by
      rw [hstarted, Bool.not_true, Bool.or_false, ← hstarted]
    rw [List.length_cons, takeLines_succ, run_append, s.run_reader hover, hasked, hstarted, if_pos rfl,
      ih, List.append_assoc]
    rfl

/-- The thread that runs the program comes through the gate in three steps, or is back at it. -/
theorem run_main (autostart requested : Bool) (readers : List Listener) :
    (Startup.mk autostart requested false .looking readers).run (List.replicate 3 .main) =
      if autostart || requested then ⟨autostart, requested, true, .running, readers⟩
      else ⟨autostart, requested, false, .looking, readers⟩ := by
  cases autostart <;> cases requested <;> rfl

/-- The replies of a reader that heard these lines after the start are the replies that they are. -/
theorem sent_map (ls : List String) (heard : List HeardLine) :
    (Listener.mk [] .waiting (heard ++ ls.map fun l => HeardLine.mk l true (Reply.ofLine l))).sent =
      heard.filterMap HeardLine.sent ++ ls.filterMap Reply.ofLine := by
  rw [Listener.sent, List.filterMap_append, List.filterMap_map]
  rfl

/-- Where every line is taken in turn, the run starts when a session's gate opens, and the replies
are those that a session's source supplies. -/
theorem run_inTurn (autostart : Bool) (typed : List TypedLine) (millis : Nat) :
    let lines := typed.map TypedLine.text
    let s := (initial autostart [lines]).run (inTurn autostart lines)
    s.started = (StartGate.wait Trigger.check 0
        [.flag autostart, .flag (!typed.isEmpty)] millis).trigger.isSome ∧
      s.readers.map Listener.sent =
        [(Source.typed (if autostart then typed else typed.drop 1)).supply] := by
  intro lines s
  have hreplies (ls : List TypedLine) :
      (ls.map TypedLine.text).filterMap Reply.ofLine = (Source.typed ls).supply := List.filterMap_map
  cases autostart with
  | true =>
    have hrun : s = (Startup.mk true false true .running []).listening []
        ([] ++ lines.map fun l => HeardLine.mk l true (Reply.ofLine l)) := by
      rw [← run_takeLines _ rfl rfl]
      change (initial true [lines]).run (inTurn true lines) = _
      rw [inTurn_of_autostart, run_append, initial, run_main]
      rfl
    rw [hrun]
    refine ⟨by cases typed <;> rfl, ?_⟩
    change [Listener.sent _] = _
    rw [sent_map, hreplies]
    rfl
  | false =>
    cases typed with
    | nil => exact ⟨rfl, rfl⟩
    | cons l ls =>
      have hrun : s = (Startup.mk false true true .running []).listening []
          ([HeardLine.mk l.text false none] ++
            (ls.map TypedLine.text).map fun l => HeardLine.mk l true (Reply.ofLine l)) := by
        rw [← run_takeLines _ rfl rfl]
        change (listening (Startup.mk false false false .looking []) (l.text :: ls.map TypedLine.text)
          []).run (inTurn false (l.text :: ls.map TypedLine.text)) = _
        rw [inTurn_cons, run_append, run_reader _ rfl, run_append, listening, run_main]
        rfl
      rw [hrun]
      refine ⟨rfl, ?_⟩
      change [Listener.sent _] = _
      rw [sent_map, hreplies]
      rfl

end Startup

end LoadBench
