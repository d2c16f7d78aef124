import LoadBench.Run

/-!
# Effects

Whatever a command does to a bench is a sequence of effects out of a small stock, and it chooses
them by a view of the bench. Both facts are one property of an action, which is proved once for
every action and from which the rest of the theory takes its frame conditions, its invariants and
its comparisons of two runs.
-/

namespace LoadBench

/-- One thing that a command does to a bench. A refusal changes nothing; it is listed so that a
set of effects says what may be refused, too. -/
inductive Effect where
  | note (n : Notice)
  | occasion (o : Occasion)
  | pause (millis : Nat)
  | poll
  | read
  /-- The allowance of ticks is drawn on. -/
  | spend
  | tick
  | post (r : Request)
  | aim (p : Plan)
  | arrive (target : Single)
  | rebase (stepsPerUnit : Single)
  | change (changes : List Calibration.Change)
  | driverScale (v : Single)
  | driverOffset (v : Single)
  | countMove (samples : Nat)
  | refuse (why : Refusal)

namespace Effect

def apply : Effect → Bench → Bench
  | .note n, b => b.noted n
  | .occasion o, b => b.afterOccasion o
  | .pause millis, b => { b with delays := b.delays.push millis, delaysLeft := b.delaysLeft - 1 }
  | .poll, b =>
    let (round, operator) := b.operator.round
    { b with operator, cell := { b.cell with load := round.load.getD b.cell.load } }
  | .read, b => { b with cell := (LoadCell.read.run b.cell).2 }
  | .spend, b => { b with ticksLeft := b.ticksLeft - 1 }
  | .tick, b => b.ticked
  | .post r, b => b.posted r
  | .aim p, b => b.aimed p
  | .arrive target, b => { b with position := target }
  | .rebase stepsPerUnit, b => b.rebased stepsPerUnit
  | .change changes, b =>
    match b.calibration.update changes with
    | .ok calibration => { b with calibration }
    | .error _ => b
  | .driverScale v, b => { b with cell := { b.cell with driverScale := v } }
  | .driverOffset v, b => { b with cell := { b.cell with driverOffset := v } }
  | .countMove samples, b => { b with tally := { b.tally with
      moves := b.tally.moves + 1
      samples := b.tally.samples + samples } }
  | .refuse _, b => b

end Effect

/-- What a command can see of a bench. -/
structure View where
  calibration : Calibration
  actuator : Actuator
  clock : UInt64
  /-- The raw reading at the present load. -/
  raw : Int
  operator : Channel
  procedure : Procedure
  ticks : Nat
  ticksLeft : Nat
  delaysLeft : Nat

namespace Bench

def view (b : Bench) : View where
  calibration := b.calibration
  actuator := b.actuator
  clock := b.clock
  raw := b.cell.raw
  operator := b.operator
  procedure := b.procedure
  ticks := b.ticks
  ticksLeft := b.ticksLeft
  delaysLeft := b.delaysLeft

/-- The second bench comes from the first by effects of a set. -/
inductive Reaches (K : Effect → Prop) (b : Bench) : Bench → Prop where
  | refl : Reaches K b b
  | step {e : Effect} {b' : Bench} : Reaches K b b' → K e → Reaches K b (e.apply b')

/-- A property that every effect keeps holds in the end. -/
theorem Reaches.invariant {K : Effect → Prop} {P : Bench → Prop}
    (hP : ∀ e, K e → ∀ b, P b → P (e.apply b)) {b b' : Bench} (h : Reaches K b b') (hb : P b) :
    P b' := by
  induction h with
  | refl => exact hb
  | step _ he ih => exact hP _ he _ ih

/-- What no effect touches is as it was. -/
theorem Reaches.frame {K : Effect → Prop} {β : Type} (f : Bench → β)
    (hf : ∀ e, K e → ∀ b, f (e.apply b) = f b) {b b' : Bench} (h : Reaches K b b') :
    f b' = f b :=
  h.invariant (P := fun c => f c = f b) (fun e he c hc => (hf e he c).trans hc) rfl

def afterAll (b : Bench) (es : List Effect) : Bench := es.foldl (fun b e => e.apply b) b

theorem afterAll_append (b : Bench) (es : List Effect) (e : Effect) :
    b.afterAll (es ++ [e]) = e.apply (b.afterAll es) := by
  rw [afterAll, List.foldl_append]
  rfl

/-- What is reached is reached by a list of effects, one after the other. -/
theorem Reaches.exists_effects {K : Effect → Prop} {b b' : Bench} (h : Reaches K b b') :
    ∃ es, (∀ e ∈ es, K e) ∧ b' = b.afterAll es := by
  induction h with
  | refl => exact ⟨[], nofun, rfl⟩
  | step _ he ih =>
    obtain ⟨es, hes, rfl⟩ := ih
    refine ⟨es ++ [_], ?_, (afterAll_append _ _ _).symm⟩
    intro e' he'
    rcases List.mem_append.1 he' with hmem | hmem
    · exact hes e' hmem
    · rw [List.mem_singleton.1 hmem]
      exact he

theorem Reaches.trans {K : Effect → Prop} {b b' b'' : Bench} (h : Reaches K b b')
    (h' : Reaches K b' b'') : Reaches K b b'' := by
  induction h' with
  | refl => exact h
  | step _ he ih => exact ih.step he

theorem Reaches.mono {K K' : Effect → Prop} (hK : ∀ e, K e → K' e) {b b' : Bench}
    (h : Reaches K b b') : Reaches K' b b' :=
  h.invariant (P := Reaches K' b) (fun _ he _ hc => hc.step (hK _ he)) .refl

theorem reaches_afterAll {K : Effect → Prop} {es : List Effect} (h : ∀ e ∈ es, K e) (b : Bench) :
    Reaches K b (b.afterAll es) := by
  induction es generalizing b with
  | nil => exact .refl
  | cons e es ih =>
    have hfirst : Reaches K b (e.apply b) := Reaches.refl.step (h e List.mem_cons_self)
    exact hfirst.trans (ih (fun e' he' => h e' (List.mem_cons_of_mem _ he')) _)

end Bench

/-- A relation between benches that commands with effects of a set see no difference in: related
benches look the same and stay related under each of the effects. -/
structure Blind (K : Effect → Prop) (R : Bench → Bench → Prop) : Prop where
  view {b b' : Bench} : R b b' → b.view = b'.view
  apply {e : Effect} {b b' : Bench} : K e → R b b' → R (e.apply b) (e.apply b')

/-- The same result on related benches, where refusals are in the set, too. -/
def Agree {α : Type} (K : Effect → Prop) (R : Bench → Bench → Prop) :
    EStateM.Result Stop Bench α → EStateM.Result Stop Bench α → Prop
  | .ok a b, .ok a' b' => a = a' ∧ R b b'
  | .error e b, .error e' b' => e = e' ∧ R b b' ∧ ∀ why, e = .refused why → K (.refuse why)
  | _, _ => False

namespace Action

variable {α β : Type} {K : Effect → Prop}

theorem pure_apply (a : α) (b : Bench) : (pure a : Action α) b = .ok a b := rfl

theorem refuse_apply (why : Refusal) (b : Bench) :
    (refuse why : Action α) b = .error (.refused why) b := rfl

theorem get_bind_apply (f : Bench → Action α) (b : Bench) : (get >>= f) b = f b b := rfl

theorem modify_bind_apply (g : Bench → Bench) (f : Unit → Action α) (b : Bench) :
    (modify g >>= f) b = f () (g b) := rfl

theorem note_bind_apply (n : Notice) (f : Unit → Action α) (b : Bench) :
    (note n >>= f) b = f () (b.noted n) := rfl

theorem occasion_bind_apply (o : Occasion) (f : Unit → Action α) (b : Bench) :
    (occasion o >>= f) b = f () (b.afterOccasion o) := rfl

theorem bind_of_ok {act : Action α} {a : α} {b b' : Bench} (h : act b = .ok a b')
    (f : α → Action β) : (act >>= f) b = f a b' := by
  simp only [bind, EStateM.bind, h]

theorem bind_eq_ok {act : Action α} {f : α → Action β} {r : β} {b b' : Bench} :
    (act >>= f) b = .ok r b' ↔ ∃ a c, act b = .ok a c ∧ f a c = .ok r b' := by
  simp only [bind, EStateM.bind]
  cases act b <;> simp [and_assoc]

theorem bind_eq_error {act : Action α} {f : α → Action β} {e : Stop} {b b' : Bench} :
    (act >>= f) b = .error e b' ↔
      act b = .error e b' ∨ ∃ a c, act b = .ok a c ∧ f a c = .error e b' := by
  simp only [bind, EStateM.bind]
  cases act b <;> simp [and_assoc]

def completes (act : Action α) (b : Bench) : Bool :=
  match act b with
  | .ok _ _ => true
  | .error _ _ => false

theorem exists_of_completes {act : Action α} {b : Bench} (h : act.completes b) :
    ∃ a b', act b = .ok a b' := by
  unfold completes at h
  split at h
  · next a b' hact => exact ⟨a, b', hact⟩
  · cases h

def completesWith (act : Action α) (p : Bench → Bool) (b : Bench) : Bool :=
  match act b with
  | .ok _ b' => p b'
  | .error _ _ => false

theorem exists_of_completesWith {act : Action α} {p : Bench → Bool} {b : Bench}
    (h : act.completesWith p b) : ∃ a b', act b = .ok a b' ∧ p b' := by
  unfold completesWith at h
  split at h
  · next a b' hact => exact ⟨a, b', hact, h⟩
  · cases h

/-- The action is refused from this bench, and leaves a bench with a property. -/
def refusedWith (act : Action α) (p : Bench → Bool) (b : Bench) : Bool :=
  match act b with
  | .error (.refused _) b' => p b'
  | _ => false

theorem exists_of_refusedWith {act : Action α} {p : Bench → Bool} {b : Bench}
    (h : act.refusedWith p b) : ∃ why b', act b = .error (.refused why) b' ∧ p b' := by
  unfold refusedWith at h
  split at h
  · next why b' hact => exact ⟨why, b', hact, h⟩
  · cases h

def effect (e : Effect) : Action Unit := modify e.apply

/-- The action makes effects of a set only, and chooses them by its view of the bench: it gives
the same result on benches that a blind relation joins. -/
def Uses (K : Effect → Prop) (act : Action α) : Prop :=
  ∀ R, Blind K R → ∀ b b', R b b' → Agree K R (act b) (act b')

theorem Uses.mono {K' : Effect → Prop} {act : Action α} (h : Uses K act)
    (hK : ∀ e, K e → K' e) : Uses K' act := by
  intro R hR b b' hb
  have hagree := h R ⟨hR.view, fun he => hR.apply (hK _ he)⟩ b b' hb
  revert hagree
  cases act b <;> cases act b' <;> simp only [Agree, imp_self]
  rintro ⟨rfl, hr, hw⟩
  exact ⟨rfl, hr, fun why he => hK _ (hw why he)⟩

theorem uses_pure (a : α) : Uses K (pure a) := fun _ _ _ _ h => ⟨rfl, h⟩

theorem uses_throw {stop : Stop} (h : ∀ why, stop = .refused why → K (.refuse why)) :
    Uses K (throw stop : Action α) := fun _ _ _ _ hb => ⟨rfl, hb, h⟩

theorem uses_refuse {why : Refusal} (h : K (.refuse why)) : Uses K (refuse why : Action α) :=
  uses_throw (by rintro _ ⟨⟩; exact h)

theorem uses_effect {e : Effect} (h : K e) : Uses K (effect e) :=
  fun _ hR _ _ hb => ⟨rfl, hR.apply h hb⟩

/-- The rest of an action need only be looked at for the values that its first part can give. -/
theorem Uses.bind_of_ok {act : Action α} {f : α → Action β} (h : Uses K act)
    (hf : ∀ a b b', act b = .ok a b' → Uses K (f a)) : Uses K (act >>= f) := by
  intro R hR b b' hb
  have hagree := h R hR b b' hb
  simp only [bind, EStateM.bind]
  cases hact : act b <;> cases hact' : act b' <;> simp only [hact, hact', Agree] at hagree ⊢
  · obtain ⟨rfl, hr⟩ := hagree
    exact hf _ _ _ hact R hR _ _ hr
  · exact hagree

theorem Uses.bind {act : Action α} {f : α → Action β} (h : Uses K act)
    (hf : ∀ a, Uses K (f a)) : Uses K (act >>= f) :=
  h.bind_of_ok fun a _ _ _ => hf a

/-- An action that looks at the bench may use what is in its view. -/
theorem Uses.get_bind {f : Bench → Action α} (hf : ∀ b, Uses K (f b))
    (hview : ∀ b b', b.view = b'.view → f b = f b') : Uses K (get >>= f) := by
  intro R hR b b' hb
  show Agree K R (f b b) (f b' b')
  rw [← hview b b' (hR.view hb)]
  exact hf b R hR b b' hb

/-- Any one bench reaches what an action makes of it. -/
theorem blind_reaches (K : Effect → Prop) (b : Bench) :
    Blind K fun c c' => c = c' ∧ Bench.Reaches K b c where
  view h := congrArg Bench.view h.1
  apply he h := ⟨congrArg _ h.1, h.2.step he⟩

theorem Uses.reaches_of_ok {act : Action α} (h : Uses K act) {a : α} {b b' : Bench}
    (hact : act b = .ok a b') : Bench.Reaches K b b' := by
  have hagree := h _ (blind_reaches K b) b b ⟨rfl, .refl⟩
  rw [hact] at hagree
  exact hagree.2.2

theorem Uses.reaches_of_error {act : Action α} (h : Uses K act) {e : Stop} {b b' : Bench}
    (hact : act b = .error e b') : Bench.Reaches K b b' := by
  have hagree := h _ (blind_reaches K b) b b ⟨rfl, .refl⟩
  rw [hact] at hagree
  exact hagree.2.1.2

theorem Uses.refusal {act : Action α} (h : Uses K act) {why : Refusal} {b b' : Bench}
    (hact : act b = .error (.refused why) b') : K (.refuse why) := by
  have hagree := h _ (blind_reaches K b) b b ⟨rfl, .refl⟩
  rw [hact] at hagree
  exact hagree.2.2 why rfl

/-- A result whose bench is seen through `f`. -/
def through {α : Type} (f : Bench → Bench) :
    EStateM.Result Stop Bench α → EStateM.Result Stop Bench α
  | .ok a b => .ok a (f b)
  | .error e b => .error e (f b)

/-- Where no effect can tell benches apart that look the same through `f`, no action can. -/
theorem Uses.through_eq {act : Action α} (hact : Uses K act) {f : Bench → Bench}
    (hf : Blind K fun b b' => f b = f b') {b b' : Bench} (h : f b = f b') :
    through f (act b) = through f (act b') := by
  have hagree := hact _ hf b b' h
  cases hr : act b <;> cases hr' : act b' <;> rw [hr, hr'] at hagree
  · rw [through, through, hagree.1, hagree.2]
  · exact hagree.elim
  · exact hagree.elim
  · rw [through, through, hagree.1, hagree.2.1]

/-- Two runs that look alike go on looking alike under what follows. -/
theorem through_bind {f : Bench → Bench} {act act' : Action α} {g g' : α → Action β} {b b' : Bench}
    (h : through f (act b) = through f (act' b'))
    (hg : ∀ a c c', f c = f c' → through f (g a c) = through f (g' a c')) :
    through f ((act >>= g) b) = through f ((act' >>= g') b') := by
  simp only [bind, EStateM.bind]
  cases hact : act b <;> cases hact' : act' b' <;> rw [hact, hact'] at h
  · injection h with ha hbench
    rw [ha]
    exact hg _ _ _ hbench
  · cases h
  · cases h
  · injection h with he hbench
    rw [through, through, he, hbench]

end Action

end LoadBench
