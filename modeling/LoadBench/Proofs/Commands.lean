import LoadBench.Proofs.Effect

/-!
# The effects of commands

Waiting, measuring and travelling have a small stock of effects each, and none of them refuses
anything. The effects of a command are put together from these stocks. No command reports an error
itself; that is left to whoever finds it refused.
-/

namespace LoadBench

namespace Effect

def Waiting : Effect → Prop
  | .note _ | .occasion _ | .pause _ | .poll => True
  | _ => False

def Measuring : Effect → Prop
  | .note _ | .occasion _ | .pause _ | .poll | .read => True
  | _ => False

theorem Waiting.measuring {e : Effect} (h : e.Waiting) : e.Measuring := by
  cases e with
  | read => exact h.elim
  | _ => exact h

def Travelling (posts : Prop) : Effect → Prop
  | .note _ | .occasion _ | .spend | .tick => True
  | .post _ => posts
  | _ => False

/-- Effects of a move with so many samples, once its plan is accepted. -/
def Driving (samples : Int) : Effect → Prop
  | .note _ | .occasion _ | .spend | .tick | .aim _ | .arrive _ => True
  | .post _ => 0 < samples
  | _ => False

def Moving (samples : Int) : Effect → Prop
  | .refuse (.motion _) => True
  | e => Driving samples e

def CalibratingLoad : Effect → Prop
  | .note _ | .occasion _ | .pause _ | .poll | .read => True
  | .change changes => ∃ divider offset, changes = [.scaleDivider divider, .offset offset]
  | .driverScale _ | .driverOffset _ => True
  | _ => False

def Announcing (given : Constants) : Effect → Prop
  | .note _ => True
  | .rebase _ => given.stepsPerUnit.isSome
  | .driverScale _ => given.scaleDivider.isSome
  | .driverOffset _ => given.offset.isSome
  | _ => False

def CalibratingDistance : Effect → Prop
  | .note _ | .occasion _ | .pause _ | .poll | .spend | .tick | .aim _ | .arrive _ => True
  | .change changes => ∃ stepsPerUnit, changes = [.stepsPerUnit stepsPerUnit]
  | .rebase _ => True
  | .refuse (.motion _) | .refuse (.setting _) => True
  | _ => False

def Mild : Effect → Prop
  | .note n => n.level ≠ .error
  | _ => True

def Mildly (S : Effect → Prop) (e : Effect) : Prop := S e ∧ e.Mild

end Effect

def Command.Effects : Command → Effect → Prop
  | .move _ _ samples, e => Effect.Moving samples e ∨ ∃ n, e = .countMove n
  | .wait _, e => Effect.Waiting e ∧ e ≠ .poll
  | .constants given, e => Effect.Announcing given e ∨ e = .occasion .change ∨
      e = .change given.changes ∨ ∃ why, e = .refuse (.setting why)
  | .calibrateLoad _, e => Effect.CalibratingLoad e ∨ ∃ why, e = .refuse why
  | .calibrateDistance _ _, e => Effect.CalibratingDistance e
  | .replay _, _ => False

theorem Source.poll_mild {s : Source} {n : Notice} (h : s.poll.notice = some n) : n.level ≠ .error := by
  unfold Source.poll at h
  split at h <;> try cases h
  · nofun
  · split at h
    · cases h
    · cases h
      nofun

/-- A round of polls may report what it ignored, but no errors. -/
theorem Channel.pollAt_mild (places : List Nat) (ss : List Source) :
    ∀ n ∈ (Channel.pollAt places ss).notices, n.level ≠ .error := by
  induction places generalizing ss with
  | nil => exact nofun
  | cons i places ih =>
    intro n hn
    rw [Channel.pollAt] at hn
    cases hs : ss[i]? with
    | none =>
      rw [hs] at hn
      exact ih ss n hn
    | some s =>
      simp only [hs] at hn
      split at hn
      · exact Source.poll_mild (Option.mem_toList.1 hn)
      · rcases List.mem_append.1 hn with hn | hn
        · exact Source.poll_mild (Option.mem_toList.1 hn)
        · exact ih _ n hn

theorem Channel.round_mild (c : Channel) : ∀ n ∈ c.round.1.notices, n.level ≠ .error := by
  unfold Channel.round
  dsimp only
  split
  · exact nofun
  · exact Channel.pollAt_mild _ _

namespace Action

variable {K : Effect → Prop}

/-! ## Single steps -/

theorem note_uses {n : Notice} (h : K (.note n)) : Uses K (note n) := uses_effect h

theorem occasion_uses {o : Occasion} (h : K (.occasion o)) : Uses K (occasion o) := uses_effect h

theorem notes_uses {ns : List Notice} (h : ∀ n ∈ ns, K (.note n)) : Uses K (ns.forM note) := by
  induction ns with
  | nil => exact uses_pure _
  | cons n ns ih =>
    exact (note_uses (h n List.mem_cons_self)).bind fun _ =>
      ih fun n' hn' => h n' (List.mem_cons_of_mem n hn')

theorem get_bind_congr {α : Type} {f g : Bench → Action α} (h : ∀ b, f b b = g b b) :
    get >>= f = get >>= g := funext h

theorem delay_eq (millis : Nat) : delay millis = (do
    occasion .delay
    let b ← get
    if b.delaysLeft = 0 then throw (.exhausted .delays) else effect (.pause millis)) := by
  refine bind_congr fun _ => get_bind_congr fun b => ?_
  split <;> rfl

theorem delay_uses {millis : Nat} (ho : K (.occasion .delay)) (hp : K (.pause millis)) :
    Uses K (delay millis) := by
  rw [delay_eq]
  refine (occasion_uses ho).bind fun _ => .get_bind (fun b => ?_) fun b b' h => ?_
  · split
    · exact uses_throw nofun
    · exact uses_effect hp
  · have hdelaysLeft : b.delaysLeft = b'.delaysLeft := congrArg View.delaysLeft h
    rw [hdelaysLeft]

theorem tick_eq : tick = (do
    let b ← get
    if b.ticksLeft = 0 then
      throw (.exhausted .ticks)
    else
      effect .spend
      occasion (.tick b.ticks)
      effect .tick) := by
  refine get_bind_congr fun b => ?_
  split <;> rfl

theorem tick_uses (hs : K .spend) (ho : ∀ o, K (.occasion o)) (ht : K .tick) : Uses K tick := by
  rw [tick_eq]
  refine .get_bind (fun b => ?_) fun b b' h => ?_
  · split
    · exact uses_throw nofun
    · exact (uses_effect hs).bind fun _ => (occasion_uses (ho _)).bind fun _ => uses_effect ht
  · have hticksLeft : b.ticksLeft = b'.ticksLeft := congrArg View.ticksLeft h
    have hticks : b.ticks = b'.ticks := congrArg View.ticks h
    rw [hticksLeft, hticks]

theorem post_uses {r : Request} (ho : K (.occasion .request)) (hp : K (.post r)) :
    Uses K (post r) := (occasion_uses ho).bind fun _ => uses_effect hp

theorem readCell_eq : readCell = do
    occasion .reading
    let b ← get
    effect .read
    return b.cell.raw := rfl

theorem readCell_uses (ho : K (.occasion .reading)) (hr : K .read) : Uses K readCell := by
  rw [readCell_eq]
  refine (occasion_uses ho).bind fun _ => .get_bind (fun b => ?_) fun b b' h => ?_
  · exact (uses_effect hr).bind fun _ => uses_pure _
  · have hraw : b.cell.raw = b'.cell.raw := congrArg View.raw h
    rw [hraw]

theorem update_eq (changes : List Calibration.Change) : update changes = do
    occasion .change
    let b ← get
    effect (.change changes)
    return b.calibration.update changes := by
  refine bind_congr fun _ => get_bind_congr fun b => ?_
  change _ = EStateM.Result.ok (b.calibration.update changes) ((Effect.change changes).apply b)
  rw [Effect.apply]
  cases b.calibration.update changes <;> rfl

theorem update_uses {changes : List Calibration.Change} (ho : K (.occasion .change))
    (hc : K (.change changes)) : Uses K (update changes) := by
  rw [update_eq]
  refine (occasion_uses ho).bind fun _ => .get_bind (fun b => ?_) fun b b' h => ?_
  · exact (uses_effect hc).bind fun _ => uses_pure _
  · have hcalibration : b.calibration = b'.calibration := congrArg View.calibration h
    rw [hcalibration]

theorem accept_uses {ε α : Type} {cause : ε → Refusal} (h : ∀ e, K (.refuse (cause e)))
    (r : Except ε α) : Uses K (accept cause r) := by
  cases r with
  | ok a => exact uses_pure a
  | error e => exact uses_refuse (h e)

def change (changes : List Calibration.Change) : Action Calibration := do
  accept .setting (← update changes)

theorem change_uses {changes : List Calibration.Change} (ho : K (.occasion .change))
    (hc : K (.change changes)) (hr : ∀ e, K (.refuse (.setting e))) : Uses K (change changes) :=
  (update_uses ho hc).bind fun updated => accept_uses hr updated

/-! ## Waits -/

theorem pollOperator_eq : pollOperator = do
    occasion .poll
    let b ← get
    effect .poll
    b.operator.round.1.notices.forM note
    return b.operator.round.1.reply := rfl

theorem pollOperator_mild : Uses (Effect.Mildly Effect.Waiting) pollOperator := by
  rw [pollOperator_eq]
  refine (occasion_uses ⟨trivial, trivial⟩).bind fun _ => .get_bind (fun b => ?_) fun b b' h => ?_
  · refine (uses_effect ⟨trivial, trivial⟩).bind fun _ => (notes_uses ?_).bind fun _ => uses_pure _
    exact fun n hn => ⟨trivial, b.operator.round_mild n hn⟩
  · have hoperator : b.operator = b'.operator := congrArg View.operator h
    rw [hoperator]

/-- Waiting for a reply, however long, only polls and pauses. -/
theorem pollRounds_mild (rounds : Nat) :
    Uses (Effect.Mildly Effect.Waiting) (pollRounds rounds) := by
  induction rounds with
  | zero => exact uses_throw nofun
  | succ rounds ih =>
    rw [pollRounds]
    refine pollOperator_mild.bind fun reply => ?_
    cases reply with
    | some r => exact uses_pure r
    | none =>
      refine .get_bind (fun b => ?_) fun b b' h => ?_
      · have hlater : Uses (Effect.Mildly Effect.Waiting) (do
            delay b.operator.pollMillis
            pollRounds rounds) :=
          (delay_uses ⟨trivial, trivial⟩ ⟨trivial, trivial⟩).bind fun _ => ih
        split
        · exact (uses_throw nofun).bind fun _ => hlater
        · exact hlater
      · have hoperator : b.operator = b'.operator := congrArg View.operator h
        rw [hoperator]

theorem awaitReply_mild : Uses (Effect.Mildly Effect.Waiting) awaitReply := by
  refine .get_bind (fun b => pollRounds_mild _) fun b b' h => ?_
  have hdelaysLeft : b.delaysLeft = b'.delaysLeft := congrArg View.delaysLeft h
  rw [hdelaysLeft]

theorem awaitAck_mild : Uses (Effect.Mildly Effect.Waiting) awaitAck := by
  refine awaitReply_mild.bind fun reply => ?_
  cases reply with
  | proceed => exact uses_pure _
  | value v => exact note_uses ⟨trivial, nofun⟩

theorem awaitAck_uses : Uses Effect.Waiting awaitAck := awaitAck_mild.mono fun _ => And.left

theorem numberAmong_mild (replies : Nat) :
    Uses (Effect.Mildly Effect.Waiting) (numberAmong replies) := by
  induction replies with
  | zero => exact uses_throw nofun
  | succ replies ih =>
    refine awaitReply_mild.bind fun reply => ?_
    cases reply with
    | proceed => exact (note_uses ⟨trivial, nofun⟩).bind fun _ => ih
    | value v => exact uses_pure v

theorem awaitNumber_mild : Uses (Effect.Mildly Effect.Waiting) awaitNumber := by
  refine .get_bind (fun b => numberAmong_mild _) fun b b' h => ?_
  have hoperator : b.operator = b'.operator := congrArg View.operator h
  rw [hoperator]

/-! ## Measurements -/

theorem sumPaused_uses {read : Action Int} {pause : Action Unit} (hr : Uses K read)
    (hp : Uses K pause) (n : Nat) (sum : Int) : Uses K (sumPaused read pause n sum) := by
  induction n generalizing sum with
  | zero => exact uses_pure sum
  | succ n ih => exact hp.bind fun _ => hr.bind fun r => ih (sum + r)

theorem pausedMean_uses {read : Action Int} {pause : Action Unit} (hr : Uses K read)
    (hp : Uses K pause) (n : Nat) : Uses K (pausedMean read pause n) :=
  hr.bind fun _ => (sumPaused_uses hr hp _ _).bind fun _ => uses_pure _

theorem meanReading_mild : Uses (Effect.Mildly Effect.Measuring) meanReading := by
  refine .get_bind (fun b => ?_) fun b b' h => ?_
  · exact pausedMean_uses (readCell_uses ⟨trivial, trivial⟩ ⟨trivial, trivial⟩)
      (delay_uses ⟨trivial, trivial⟩ ⟨trivial, trivial⟩) _
  · have hprocedure : b.procedure = b'.procedure := congrArg View.procedure h
    rw [hprocedure]

/-! ## Moves -/

theorem follow_uses {step : Cadence → Nat → Option Nat × Cadence} {u : Single}
    {c : Option Cadence} (ho : K (.occasion .request)) (hp : c.isSome → ∀ r, K (.post r)) :
    Uses K (follow step u c) := by
  cases c with
  | none => exact uses_pure _
  | some c =>
    refine .get_bind (fun b => ?_) fun b b' h => ?_
    · rcases step c b.clock.toNat with ⟨_ | index, c'⟩
      · exact uses_pure _
      · exact (post_uses ho (hp rfl _)).bind fun _ => uses_pure _
    · have hclock : b.clock = b'.clock := congrArg View.clock h
      have hactuator : b.actuator = b'.actuator := congrArg View.actuator h
      rw [hclock, hactuator]

/-- A cadence that is followed makes the request that its step asks for, or none. -/
theorem follow_ok {step : Cadence → Nat → Option Nat × Cadence} {u : Single} {c : Cadence}
    {r : Bool × Option Cadence} {b b' : Bench} (h : follow step u (some c) b = .ok r b') :
    (∃ c', step c b.clock.toNat = (none, c') ∧ r = (false, some c') ∧ b' = b) ∨
    ∃ i c', step c b.clock.toNat = (some i, c') ∧ r = (true, some c') ∧
      b' = (b.afterOccasion .request).posted ⟨i, distanceOf b.actuator.position u⟩ := by
  rw [follow, get_bind_apply] at h
  rcases hstep : step c b.clock.toNat with ⟨_ | i, c'⟩
  · rw [hstep] at h
    cases h
    exact .inl ⟨c', rfl, rfl, rfl⟩
  · rw [hstep] at h
    cases h
    exact .inr ⟨i, c', rfl, rfl, rfl⟩

/-- There are samples left to follow exactly if there were any. -/
theorem isSome_of_follow {step : Cadence → Nat → Option Nat × Cadence} {u : Single}
    {c : Option Cadence} {r : Bool × Option Cadence} {b b' : Bench}
    (h : follow step u c b = .ok r b') : r.2.isSome = c.isSome := by
  cases c with
  | none => cases h; rfl
  | some c =>
    rcases follow_ok h with ⟨c', _, rfl, _⟩ | ⟨i, c', _, rfl, _⟩
    · rfl
    · rfl

/-- The loop of a move only pulses, looks at its cadence and posts requests. -/
theorem travel_mild (u : Single) (allowance : Nat) (c : Option Cadence) (ticks : Nat) :
    Uses (Effect.Mildly (Effect.Travelling c.isSome)) (travel u allowance c ticks) := by
  induction allowance generalizing c ticks with
  | zero =>
    refine .get_bind (fun b => ?_) fun b b' h => ?_
    · split
      · exact uses_pure _
      · exact uses_throw nofun
    · have hactuator : b.actuator = b'.actuator := congrArg View.actuator h
      rw [hactuator]
  | succ allowance ih =>
    refine .get_bind (fun b => ?_) fun b b' h => ?_
    · split
      · exact uses_pure _
      · refine (tick_uses ⟨trivial, trivial⟩ (fun _ => ⟨trivial, trivial⟩) ⟨trivial, trivial⟩).bind fun _ => ?_
        refine (follow_uses ⟨trivial, trivial⟩ fun hc _ => ⟨hc, trivial⟩).bind_of_ok ?_
        rintro ⟨requested, c'⟩ b₁ b₂ hfollow
        have hc := isSome_of_follow hfollow
        have hlater : Uses (Effect.Mildly (Effect.Travelling c.isSome))
            (travel u allowance c' (ticks + 1)) := by
          rw [← hc]
          exact ih c' (ticks + 1)
        cases requested with
        | false => exact hlater
        | true =>
          refine .get_bind (fun b => ?_) fun b b' h => ?_
          · exact (note_uses ⟨trivial, nofun⟩).bind fun _ => hlater
          · have hactuator : b.actuator = b'.actuator := congrArg View.actuator h
            rw [hactuator]
    · have hactuator : b.actuator = b'.actuator := congrArg View.actuator h
      rw [hactuator]

theorem travel_uses (u : Single) (allowance : Nat) (c : Option Cadence) (ticks : Nat) :
    Uses (Effect.Travelling c.isSome) (travel u allowance c ticks) :=
  (travel_mild u allowance c ticks).mono fun _ => And.left

/-- What each tick with its request keeps holds on arrival. -/
theorem travel_ok {P : Option Cadence → Bench → Prop} {u : Single}
    (htick : ∀ c b b₁ r b₂, P c b → tick b = .ok () b₁ → follow Cadence.tick u c b₁ = .ok r b₂ →
      P r.2 b₂)
    (hnote : ∀ c b n, P c b → P c (b.noted n))
    {allowance ticks : Nat} {c : Option Cadence} {r : Nat × Option Cadence} {b b' : Bench}
    (hb : P c b) (h : travel u allowance c ticks b = .ok r b') :
    P r.2 b' ∧ b'.actuator.toGo = 0 := by
  induction allowance generalizing c ticks b with
  | zero =>
    rw [travel, get_bind_apply] at h
    split at h
    · next hgo => cases h; exact ⟨hb, hgo⟩
    · cases h
  | succ allowance ih =>
    rw [travel, get_bind_apply] at h
    split at h
    · next hgo => cases h; exact ⟨hb, hgo⟩
    · obtain ⟨_, b₁, hb₁, h⟩ := bind_eq_ok.1 h
      obtain ⟨⟨requested, c'⟩, b₂, hb₂, h⟩ := bind_eq_ok.1 h
      have hc' := htick c b b₁ _ b₂ hb hb₁ hb₂
      cases requested with
      | false => exact ih hc' h
      | true => exact ih (hnote c' b₂ _ hc') h

theorem isSome_of_travel {u : Single} {allowance ticks : Nat} {c : Option Cadence}
    {r : Nat × Option Cadence} {b b' : Bench} (h : travel u allowance c ticks b = .ok r b') :
    r.2.isSome = c.isSome :=
  (travel_ok (P := fun c' _ => c'.isSome = c.isSome)
    (fun _ _ _ _ _ hc _ hfollow => (isSome_of_follow hfollow).trans hc) (fun _ _ _ hc => hc) rfl h).1

/-- Only a move with samples has a cadence. -/
theorem pos_of_isSome_cadence {samples : Int} {plan : Plan} {now : Nat}
    (h : (Cadence.ofPlan? samples plan now).isSome) : 0 < samples := by
  by_cases hneg : samples ≤ 0
  · simp [Cadence.ofPlan?, hneg] at h
  · omega

/-- The part of a move that comes after its plan is accepted. -/
def drive (target : Single) (samples : Int) (u : Single) (plan : Plan) : Action MoveReport := do
  note (.moving target plan.target plan.delta plan.speed plan.seconds)
  occasion .move
  modify (·.aimed plan)
  let cadence := Cadence.ofPlan? samples plan (← get).clock.toNat
  let (_, cadence) ← follow Cadence.start u cadence
  let (ticks, cadence) ← travel u ((← get).ticksLeft + 1) cadence 0
  let (_, cadence) ← follow (fun c _ => c.complete) u cadence
  modify ({ · with position := target })
  return { plan, samples := (cadence.map Cadence.published).getD 0, ticks }

theorem move_eq (target feedrate : Single) (samples : Int) (u : Single) :
    move target feedrate samples u = (do
      let b ← get
      let plan ← accept .motion (Plan.make b.actuator.position target feedrate u)
      drive target samples u plan) := rfl

/-- A drive that completes: on from the aimed bench, the start of the cadence, the travel, and the
end of the cadence. -/
theorem drive_ok {target : Single} {samples : Int} {u : Single} {plan : Plan} {r : MoveReport}
    {b b' : Bench} (h : drive target samples u plan b = .ok r b') :
    ∃ n b₁ r₁ b₂ r₂ b₃ r₃ b₄, b₁ = ((b.noted n).afterOccasion .move).aimed plan ∧
      follow Cadence.start u (Cadence.ofPlan? samples plan b₁.clock.toNat) b₁ = .ok r₁ b₂ ∧
      travel u (b₂.ticksLeft + 1) r₁.2 0 b₂ = .ok r₂ b₃ ∧
      follow (fun c _ => c.complete) u r₂.2 b₃ = .ok r₃ b₄ ∧
      b' = { b₄ with position := target } ∧ r = ⟨plan, (r₃.2.map Cadence.published).getD 0, r₂.1⟩ := by
  rw [drive, note_bind_apply, occasion_bind_apply, modify_bind_apply, get_bind_apply] at h
  obtain ⟨⟨d₁, c₁⟩, b₂, h₁, hafter⟩ := bind_eq_ok.1 h
  simp only [get_bind_apply] at hafter
  obtain ⟨⟨ticks, c₂⟩, b₃, h₂, hafter'⟩ := bind_eq_ok.1 hafter
  obtain ⟨⟨d₃, c₃⟩, b₄, h₃, hend⟩ := bind_eq_ok.1 hafter'
  cases hend
  exact ⟨_, _, _, b₂, _, b₃, _, b₄, rfl, h₁, h₂, h₃, rfl, rfl⟩

/-- A move under way switches the actuator on, travels and counts itself. -/
theorem drive_mild (target : Single) (samples : Int) (u : Single) (plan : Plan) :
    Uses (Effect.Mildly (Effect.Driving samples)) (drive target samples u plan) := by
  refine (note_uses ⟨trivial, nofun⟩).bind fun _ => (occasion_uses ⟨trivial, trivial⟩).bind fun _ => ?_
  refine (uses_effect (e := .aim plan) ⟨trivial, trivial⟩).bind fun _ =>
    .get_bind (fun b => ?_) fun b b' h => ?_
  · have hpos : (Cadence.ofPlan? samples plan b.clock.toNat).isSome → 0 < samples :=
      pos_of_isSome_cadence
    refine (follow_uses ⟨trivial, trivial⟩ fun hc _ => ⟨hpos hc, trivial⟩).bind_of_ok ?_
    intro r b₁ b₂ hr
    have hr := isSome_of_follow hr
    refine .get_bind (fun b => ?_) fun b b' h => ?_
    · refine ((travel_mild _ _ _ _).mono ?_).bind_of_ok fun r' b₁ b₂ hr' => ?_
      · rintro e ⟨he, hmild⟩
        refine ⟨?_, hmild⟩
        cases e <;> simp_all [Effect.Travelling, Effect.Driving]
      · have hr' := (isSome_of_travel hr').trans hr
        refine (follow_uses ⟨trivial, trivial⟩ fun hc _ => ⟨hpos (hr' ▸ hc), trivial⟩).bind ?_
        intro r''
        exact (uses_effect (e := .arrive target) ⟨trivial, trivial⟩).bind fun _ => uses_pure _
    · have hticksLeft : b.ticksLeft = b'.ticksLeft := congrArg View.ticksLeft h
      rw [hticksLeft]
  · have hclock : b.clock = b'.clock := congrArg View.clock h
    rw [hclock]

theorem drive_uses (target : Single) (samples : Int) (u : Single) (plan : Plan) :
    Uses (Effect.Driving samples) (drive target samples u plan) :=
  (drive_mild target samples u plan).mono fun _ => And.left

/-- A move of no steps moves nothing, any other only drives. -/
theorem move_mild (target feedrate : Single) (samples : Int) (u : Single) :
    Uses (Effect.Mildly (Effect.Moving samples)) (move target feedrate samples u) := by
  rw [move_eq]
  refine .get_bind (fun b => ?_) fun b b' h => ?_
  · refine (accept_uses (fun _ => ⟨trivial, trivial⟩) _).bind fun plan => ?_
    refine (drive_mild _ _ _ plan).mono ?_
    rintro e ⟨he, hmild⟩
    cases e with
    | refuse why => exact he.elim
    | _ => exact ⟨he, hmild⟩
  · have hactuator : b.actuator = b'.actuator := congrArg View.actuator h
    rw [hactuator]

theorem move_uses (target feedrate : Single) (samples : Int) (u : Single) :
    Uses (Effect.Moving samples) (move target feedrate samples u) :=
  (move_mild target feedrate samples u).mono fun _ => And.left

/-! ## Calibrations -/

/-- Only the last phase of a load calibration writes anything. -/
theorem loadStep_measures_mild {m : LoadCalibration} (h : m.phase ≠ .apply) :
    Uses (Effect.Mildly Effect.Measuring) m.step := by
  have hwait : Uses (Effect.Mildly Effect.Measuring) awaitAck :=
    awaitAck_mild.mono fun _ => And.imp_left Effect.Waiting.measuring
  unfold LoadCalibration.step
  cases hphase : m.phase with
  | awaitZero => exact (note_uses ⟨trivial, nofun⟩).bind fun _ => hwait.bind fun _ => uses_pure _
  | measureZero =>
    exact meanReading_mild.bind fun _ => (note_uses ⟨trivial, nofun⟩).bind fun _ => uses_pure _
  | awaitLoad => exact (note_uses ⟨trivial, nofun⟩).bind fun _ => hwait.bind fun _ => uses_pure _
  | measureLoad =>
    exact meanReading_mild.bind fun _ => (note_uses ⟨trivial, nofun⟩).bind fun _ => uses_pure _
  | compute =>
    cases LoadConstants.ofMeans m.zeroMean m.loadMean m.reference with
    | ok k => exact (note_uses ⟨trivial, nofun⟩).bind fun _ => uses_pure _
    | error e => exact uses_pure _
  | apply => exact absurd hphase h
  | done => exact uses_pure _

theorem loadStep_measures {m : LoadCalibration} (h : m.phase ≠ .apply) :
    Uses Effect.Measuring m.step := (loadStep_measures_mild h).mono fun _ => And.left

/-- A phase does only what calibrating the load cell may do. -/
theorem loadStep_mild (m : LoadCalibration) :
    Uses (Effect.Mildly Effect.CalibratingLoad) m.step := by
  by_cases h : m.phase = .apply
  · unfold LoadCalibration.step
    rw [h]
    cases m.computed with
    | none => exact uses_pure _
    | some k =>
      refine (update_uses ⟨trivial, trivial⟩ ⟨⟨_, _, rfl⟩, trivial⟩).bind fun r => ?_
      cases r with
      | error e => exact uses_pure _
      | ok c =>
        refine (uses_effect (e := .driverScale k.divider) ⟨trivial, trivial⟩).bind fun _ => ?_
        refine (uses_effect (e := .driverOffset k.offset) ⟨trivial, trivial⟩).bind fun _ => ?_
        exact (note_uses ⟨trivial, nofun⟩).bind fun _ => uses_pure _
  · refine (loadStep_measures_mild h).mono ?_
    rintro e ⟨he, hmild⟩
    refine ⟨?_, hmild⟩
    cases e <;> simp_all [Effect.Measuring, Effect.CalibratingLoad]

theorem loadStep_uses (m : LoadCalibration) : Uses Effect.CalibratingLoad m.step :=
  (loadStep_mild m).mono fun _ => And.left

/-- So do all phases together. -/
theorem loadSteps_mild (n : Nat) (m : LoadCalibration) :
    Uses (Effect.Mildly Effect.CalibratingLoad) (LoadCalibration.steps n m) := by
  induction n generalizing m with
  | zero => exact uses_pure _
  | succ n ih =>
    refine (loadStep_mild m).bind fun r => ?_
    cases r with
    | error e => exact uses_pure _
    | ok m' =>
      change Uses _ (if m'.phase = .done then _ else _)
      split
      · exact uses_pure _
      · exact ih m'

theorem loadSteps_uses (n : Nat) (m : LoadCalibration) :
    Uses Effect.CalibratingLoad (LoadCalibration.steps n m) :=
  (loadSteps_mild n m).mono fun _ => And.left

/-- A load calibration is its steps; then it gives the constants in force, or is refused. -/
theorem calibrateLoad_eq (reference : Single) : calibrateLoad reference = (do
    match ← LoadCalibration.steps 7 { reference } with
    | (_, none) => return (← get).calibration
    | (_, some why) => refuse why) := by
  rw [calibrateLoad, LoadCalibration.complete, bind_assoc]
  refine bind_congr fun r => ?_
  rcases r with ⟨m, _ | why⟩ <;> rfl

theorem calibrateLoad_mild (reference : Single) :
    Uses (Effect.Mildly (Command.calibrateLoad reference).Effects) (calibrateLoad reference) := by
  rw [calibrateLoad_eq]
  refine ((loadSteps_mild 7 _).mono fun _ => And.imp_left Or.inl).bind fun r => ?_
  rcases r with ⟨m, _ | why⟩
  · refine .get_bind (fun b => uses_pure _) fun b b' h => ?_
    have hcalibration : b.calibration = b'.calibration := congrArg View.calibration h
    rw [hcalibration]
  · exact uses_refuse ⟨.inr ⟨_, rfl⟩, trivial⟩

theorem distanceAmong_mild (commanded : Steps) (replies : Nat) :
    Uses (Effect.Mildly Effect.Waiting) (distanceAmong commanded replies) := by
  induction replies with
  | zero => exact uses_throw nofun
  | succ replies ih =>
    refine (note_uses ⟨trivial, nofun⟩).bind fun _ => awaitNumber_mild.bind fun distance => ?_
    cases observedStepsPerUnit commanded distance with
    | ok u => exact uses_pure _
    | error e => exact (note_uses ⟨trivial, nofun⟩).bind fun _ => ih

theorem askDistance_mild (commanded : Steps) :
    Uses (Effect.Mildly Effect.Waiting) (askDistance commanded) := by
  refine .get_bind (fun b => distanceAmong_mild _ _) fun b b' h => ?_
  have hoperator : b.operator = b'.operator := congrArg View.operator h
  rw [hoperator]

theorem askDistance_uses (commanded : Steps) : Uses Effect.Waiting (askDistance commanded) :=
  (askDistance_mild commanded).mono fun _ => And.left

/-- The part of a distance calibration that comes after its check. -/
def calibrateBy (target feedrate previous : Single) (commanded : Steps) : Action DistanceReport := do
  note (.distanceMove commanded)
  awaitAck
  let _ ← move target feedrate 0 previous
  let (stepsPerUnit, observed) ← askDistance commanded
  let _ ← change [.stepsPerUnit stepsPerUnit]
  modify (·.rebased stepsPerUnit)
  note (.distanceCalibrated stepsPerUnit previous)
  return { commanded, observed, previous, stepsPerUnit }

theorem calibrateDistance_eq (target feedrate : Single) : calibrateDistance target feedrate = (do
    let b ← get
    let commanded := stepsOf target b.calibration.stepsPerUnit - b.actuator.position
    if commanded = 0 then
      refuse (.setting (.invalidScaleFactor .stepsPerUnit 0))
    else
      calibrateBy target feedrate b.calibration.stepsPerUnit commanded) := by
  refine get_bind_congr fun b => ?_
  dsimp only
  split
  · rfl
  · simp only [calibrateBy, change, bind_assoc]

theorem calibrateBy_mild (target feedrate previous : Single) (commanded : Steps) :
    Uses (Effect.Mildly Effect.CalibratingDistance)
      (calibrateBy target feedrate previous commanded) := by
  have hwait {e : Effect} (he : e.Waiting) : e.CalibratingDistance := by
    cases e <;> simp_all [Effect.Waiting, Effect.CalibratingDistance]
  refine (note_uses ⟨trivial, nofun⟩).bind fun _ => ?_
  refine (awaitAck_mild.mono fun _ => And.imp_left hwait).bind fun _ => ?_
  refine ((move_mild _ _ _ _).mono ?_).bind fun _ => ?_
  · rintro e ⟨he, hmild⟩
    refine ⟨?_, hmild⟩
    cases e with
    | refuse why => cases why <;> simp_all [Effect.Moving, Effect.Driving, Effect.CalibratingDistance]
    | _ => simp_all [Effect.Moving, Effect.Driving, Effect.CalibratingDistance]
  · refine ((askDistance_mild _).mono fun _ => And.imp_left hwait).bind fun r => ?_
    refine (change_uses ⟨trivial, trivial⟩ ⟨⟨_, rfl⟩, trivial⟩ fun _ => ⟨trivial, trivial⟩).bind ?_
    intro _
    refine (uses_effect (e := .rebase r.1) ⟨trivial, trivial⟩).bind fun _ => ?_
    exact (note_uses ⟨trivial, nofun⟩).bind fun _ => uses_pure _

/-- Calibrating the distance moves, waits for the operator and sets one constant. -/
theorem calibrateDistance_mild (target feedrate : Single) :
    Uses (Effect.Mildly Effect.CalibratingDistance) (calibrateDistance target feedrate) := by
  rw [calibrateDistance_eq]
  refine .get_bind (fun b => ?_) fun b b' h => ?_
  · dsimp only
    split
    · exact uses_refuse ⟨trivial, trivial⟩
    · exact calibrateBy_mild _ _ _ _
  · have hcalibration : b.calibration = b'.calibration := congrArg View.calibration h
    have hactuator : b.actuator = b'.actuator := congrArg View.actuator h
    rw [hcalibration, hactuator]

/-! ## Commands -/

/-- The part of a change of constants that comes after the change itself. -/
def announce (given : Constants) (c : Calibration) : Action Unit := do
  if given.stepsPerUnit.isSome then modify (·.rebased c.stepsPerUnit)
  if given.scaleDivider.isSome then setDriverScale c.scaleDivider
  if given.offset.isSome then setDriverOffset c.offset
  note (.constantsSet c)

theorem setConstants_eq (given : Constants) : setConstants given = (do
    let c ← change given.changes
    announce given c) := by
  simp only [setConstants, change, bind_assoc, announce]

theorem when_uses {c : Prop} [Decidable c] {act rest : Action Unit} (h : c → Uses K act)
    (hrest : Uses K rest) : Uses K (if c then act >>= fun _ => rest else rest) := by
  by_cases hc : c
  · rw [if_pos hc]
    exact (h hc).bind fun _ => hrest
  · rw [if_neg hc]
    exact hrest

theorem announce_mild (given : Constants) (c : Calibration) :
    Uses (Effect.Mildly (Effect.Announcing given)) (announce given c) := by
  refine when_uses (fun h => uses_effect (e := .rebase c.stepsPerUnit) ⟨h, trivial⟩) ?_
  refine when_uses (fun h => uses_effect (e := .driverScale c.scaleDivider) ⟨h, trivial⟩) ?_
  refine when_uses (fun h => uses_effect (e := .driverOffset c.offset) ⟨h, trivial⟩) ?_
  exact note_uses ⟨trivial, nofun⟩

theorem announce_uses (given : Constants) (c : Calibration) :
    Uses (Effect.Announcing given) (announce given c) :=
  (announce_mild given c).mono fun _ => And.left

/-- A command makes its effects, and reports no error. -/
theorem execute_mild (c : Command) : Uses (Effect.Mildly c.Effects) (execute c) := by
  cases c with
  | move target feedrate samples =>
    refine .get_bind (fun b => ?_) fun b b' h => ?_
    · refine ((move_mild _ _ _ _).mono fun _ => And.imp_left Or.inl).bind fun report => ?_
      exact uses_effect (e := .countMove report.samples) ⟨.inr ⟨_, rfl⟩, trivial⟩
    · have hcalibration : b.calibration = b'.calibration := congrArg View.calibration h
      rw [hcalibration]
  | wait seconds =>
    exact (note_uses ⟨⟨trivial, nofun⟩, nofun⟩).bind fun _ =>
      delay_uses ⟨⟨trivial, nofun⟩, trivial⟩ ⟨⟨trivial, nofun⟩, trivial⟩
  | replay cycles => exact uses_pure _
  | constants given =>
    have hchange : Uses (Effect.Mildly (Command.constants given).Effects) (change given.changes) :=
      change_uses ⟨.inr (.inl rfl), trivial⟩ ⟨.inr (.inr (.inl rfl)), trivial⟩
        fun e => ⟨.inr (.inr (.inr ⟨e, rfl⟩)), trivial⟩
    change Uses _ (setConstants given)
    rw [setConstants_eq]
    exact hchange.bind fun c => (announce_mild given c).mono fun _ => And.imp_left Or.inl
  | calibrateLoad reference => exact (calibrateLoad_mild reference).bind fun _ => uses_pure _
  | calibrateDistance target feedrate =>
    exact (calibrateDistance_mild target feedrate).bind fun _ => uses_pure _

theorem execute_uses (c : Command) : Uses c.Effects (execute c) :=
  (execute_mild c).mono fun _ => And.left

end Action

end LoadBench
