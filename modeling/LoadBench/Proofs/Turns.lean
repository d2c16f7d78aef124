import LoadBench.Proofs.Waits

/-!
# Sources in turn

Each round of polls begins one place after the round before, whatever its polls brought and whatever
was sent or dropped meanwhile. So among as many rounds as there are sources every source is polled
first exactly once, and a source that replies whenever it is polled is heard at least once.
-/

namespace LoadBench

def firstPlace (polls : List Poll) : Option Nat := polls.head?.map Poll.place

/-- The place that a round begins with, if one is under way. -/
def Stage.starts : Stage → List (Option Nat)
  | .between => []
  | .polling polls left => [(polls.map Poll.place ++ left).head?]

/-- A round whose first poll brings a reply is over with it. -/
theorem Complete.eq_singleton {count : Nat} {polls : List Poll} {i : Nat}
    (h : Complete count polls) (hfirst : firstPlace polls = some i)
    (hreplies : ∀ p ∈ polls, p.place = i → p.reply.isSome) : ∃ r, polls = [⟨i, some r⟩] := by
  cases polls with
  | nil => cases hfirst
  | cons p rest =>
    obtain ⟨place, reply⟩ := p
    cases hfirst
    obtain ⟨r, rfl⟩ := Option.isSome_iff_exists.1 (hreplies _ List.mem_cons_self rfl)
    cases rest with
    | nil => exact ⟨r, rfl⟩
    | cons p rest => cases h.first _ List.mem_cons_self

namespace Desk

def rounds (d : Desk) : List (List Poll) :=
  d.served.flatMap (fun x => x.1.rounds) ++ (d.underway.map fun x => x.1.rounds).getD []

/-- The places that the rounds began with, in order, the round under way included. -/
def starts (d : Desk) : List (Option Nat) :=
  d.rounds.map firstPlace ++ (d.underway.map fun x => x.2.starts).getD []

variable {d : Desk} {s : Service} {polls : List Poll} {i : Nat} {left : List Nat}

/-! ## What a step does to the order of rounds -/

theorem rounds_of_underway {stage : Stage} (h : d.underway = some (s, stage)) :
    d.rounds = (d.serving s stage).rounds := by
  rw [rounds, h]
  rfl

theorem starts_of_underway {stage : Stage} (h : d.underway = some (s, stage)) :
    d.starts = (d.serving s stage).starts := by
  rw [starts, rounds_of_underway h, h]
  rfl

/-- Of a round under way only the first place counts. -/
theorem serving_starts {d' : Desk} {polls' : List Poll} {left' : List Nat}
    (hserved : d'.served = d.served)
    (hfirst : (polls'.map Poll.place ++ left').head? = (polls.map Poll.place ++ left).head?) :
    (d'.serving s (.polling polls' left')).starts = (d.serving s (.polling polls left)).starts := by
  unfold starts rounds serving
  dsimp only [Option.map_some, Option.getD_some, Stage.starts]
  rw [hserved, hfirst]

/-- The end of a round files it among the rounds that ended. -/
theorem closed_starts (reply : Option Reply) : (d.closed s polls reply).starts =
    (d.serving s (.polling polls [])).starts := by
  have hfirst : firstPlace polls = (polls.map Poll.place ++ []).head? := by
    rw [List.append_nil, List.head?_map, firstPlace]
  unfold closed starts rounds
  split <;> simp [serving, Service.after, Stage.starts, hfirst]

/-- A poll leaves the round with the place that it began with. -/
theorem polled_starts {source : Source} (h : d.channel.sources[i]? = some source) :
    (d.polled s polls i left).starts = (d.serving s (.polling polls (i :: left))).starts := by
  have hfirst (p : Poll) (hp : p.place = i) (rest : List Nat) :
      ((polls ++ [p]).map Poll.place ++ rest).head? = (polls.map Poll.place ++ i :: left).head? := by
    cases polls with
    | nil => exact congrArg some hp
    | cons first polls => rfl
  unfold polled
  rw [h]
  dsimp only
  split
  · rw [closed_starts]
    exact serving_starts rfl (hfirst _ rfl [])
  · exact serving_starts rfl (hfirst _ rfl left)

/-- A round that begins starts where the cursor stands. -/
theorem begun_starts (hpos : 0 < d.channel.sources.length) :
    ({ d with channel := d.channel.begun }.serving s (.polling [] d.channel.places)).starts =
      (d.serving s .between).starts ++ [some (d.channel.next % d.channel.sources.length)] := by
  have hfirst : d.channel.places.head? = some (d.channel.next % d.channel.sources.length) := by
    rw [Channel.places, Channel.order, List.head?_map, List.head?_range, if_neg hpos.ne']
    simp
  unfold starts rounds serving
  dsimp only [Option.map_some, Option.getD_some, Stage.starts]
  rw [List.map_nil, List.nil_append, hfirst, List.append_nil]

/-- The rounds that a desk began, from the channel that it began with, each one place after the one
before. -/
structure Rotating (c : Channel) (d : Desk) : Prop where
  starts : d.starts =
    (List.range d.starts.length).map fun k => some ((c.next + k) % c.sources.length)
  next : d.channel.next % c.sources.length = (c.next + d.starts.length) % c.sources.length

variable {c : Channel}

theorem Rotating.of_same {d' : Desk} (h : d.Rotating c) (hstarts : d'.starts = d.starts)
    (hnext : d'.channel.next = d.channel.next) : d'.Rotating c where
  starts := by
    rw [hstarts]
    exact h.starts
  next := by
    rw [hnext, hstarts]
    exact h.next

/-- A new round begins one place further than the last one did. -/
theorem Rotating.worked (hpos : 0 < c.sources.length) {millis : Nat}
    (hd : d.Sound c.sources.length millis) (h : d.Rotating c) : d.worked.Rotating c := by
  unfold Desk.worked
  split
  · exact h
  · next s hunderway =>
    have hbegun := begun_starts (d := d) (s := s) (by rwa [hd.sources])
    rw [← starts_of_underway hunderway, hd.sources, h.next] at hbegun
    constructor
    · rw [hbegun, List.length_append, List.length_singleton, List.range_succ, List.map_append,
        ← h.starts]
      rfl
    · rw [hbegun, List.length_append, List.length_singleton, ← Nat.add_assoc]
      change d.channel.begun.next % _ = _
      rw [Channel.begun, if_neg (by rw [hd.sources]; omega), hd.sources, h.next]
      exact Nat.mod_add_mod _ _ _
  · next s polls hunderway =>
    refine h.of_same ?_ (by rw [closed_channel])
    rw [closed_starts, starts_of_underway hunderway]
  · next s polls i left hunderway =>
    obtain ⟨_, hperm, _⟩ := hd.underway _ _ hunderway
    -- a place of a round is the place of a source, or the next one would be first
    have hlt : i < c.sources.length := List.mem_range.1 (hperm.mem_iff.1 (by simp))
    rw [← hd.sources] at hlt
    have hsource := List.getElem?_eq_getElem hlt
    refine h.of_same ?_ (by rw [(polled_of_some hsource).1])
    rw [polled_starts hsource, starts_of_underway hunderway]

theorem Rotating.step (hpos : 0 < c.sources.length) {millis : Nat}
    (hd : d.Sound c.sources.length millis) (h : d.Rotating c) (e : Event) :
    (d.step e).Rotating c := by
  cases e with
  | call call =>
    rw [Desk.step]
    split
    · next hnone =>
      refine h.of_same ?_ rfl
      simp [Desk.starts, rounds, serving, hnone, Stage.starts]
    · exact h
  | work => exact h.worked hpos hd
  | send j r => exact h.of_same rfl rfl
  | drop j => exact h.of_same rfl rfl

theorem run_rotating (hpos : 0 < c.sources.length) (events : List Event) :
    (({ channel := c } : Desk).run events).Rotating c := by
  have hstart : ({ channel := c } : Desk).Sound c.sources.length c.pollMillis ∧
      ({ channel := c } : Desk).Rotating c := ⟨run_sound c [], rfl, rfl⟩
  refine (List.foldlRecOn (motive := fun d : Desk => d.Sound c.sources.length c.pollMillis ∧
    d.Rotating c) events Desk.step hstart ?_).2
  exact fun _ ⟨hsound, hrotating⟩ e _ => ⟨hsound.step e, hrotating.step hpos hsound e⟩

/-! ## Windows of rounds -/

/-- Rounds in a row begin at places in a row. -/
theorem Rotating.window (h : d.Rotating c) {window : List (List Poll)} (hw : window <:+: d.rounds) :
    ∃ start, window.map firstPlace =
      (List.range window.length).map fun k => some ((start + k) % c.sources.length) := by
  obtain ⟨before, after, hw⟩ := hw
  refine ⟨c.next + before.length, List.ext_getElem (by simp) fun k hk _ => ?_⟩
  rw [List.length_map] at hk
  have hround : d.rounds[before.length + k]? = some window[k] := by
    rw [← hw, List.append_assoc, List.getElem?_append_right (Nat.le_add_right _ _),
      Nat.add_sub_cancel_left, List.getElem?_append_left hk, List.getElem?_eq_getElem hk]
  have hstart : d.starts[before.length + k]? = some (firstPlace window[k]) := by
    rw [Desk.starts, List.getElem?_append_left, List.getElem?_map, hround, Option.map_some]
    rw [List.length_map]
    exact (List.getElem?_eq_some_iff.1 hround).1
  rw [h.starts] at hstart
  obtain ⟨_, hplace⟩ := List.getElem?_eq_some_iff.1 hstart
  simpa [Nat.add_assoc] using hplace.symm

/-- Among as many rounds as there are sources every source is polled first once. -/
theorem Rotating.window_perm (h : d.Rotating c) {window : List (List Poll)}
    (hw : window <:+: d.rounds) (hlength : window.length = c.sources.length) :
    (window.map firstPlace).Perm ((List.range c.sources.length).map some) := by
  obtain ⟨start, hfirsts⟩ := h.window hw
  have horder : window.map firstPlace = (Channel.order c.sources.length start).map some := by
    rw [hfirsts, hlength, Channel.order, List.map_map]
    rfl
  rw [horder, Channel.order_eq_rotate]
  exact (List.rotate_perm _ _).map some

/-- Every round that is over was complete. -/
theorem Sound.complete {count millis : Nat} (h : d.Sound count millis) {polls : List Poll}
    (hp : polls ∈ d.rounds) : Complete count polls := by
  rcases List.mem_append.1 hp with hp | hp
  · obtain ⟨⟨s, a⟩, hserved, hp⟩ := List.mem_flatMap.1 hp
    exact (h.served s a hserved).rounds polls hp
  · cases hunderway : d.underway with
    | none =>
      rw [hunderway] at hp
      cases hp
    | some x =>
      rw [hunderway] at hp
      exact (h.underway x.1 x.2 hunderway).1.rounds polls hp

/-! ## Looks -/

/-- A look at the operator is one round of polls of the channel. -/
theorem look_works (hd : d.underway = none) : ∃ k polls a,
    Call.look.answer d.channel.round.1.reply = some a ∧
      d.run (Call.look.events k) = { d with
        channel := d.channel.round.2
        served := d.served ++ [({ call := .look, rounds := [polls] }, a)] } := by
  have hcall : d.step (.call .look) = d.serving { call := .look } .between := by
    rw [Desk.step, hd]
  obtain ⟨polls, hround⟩ := d.round_works { call := .look }
  -- an empty round has to be closed by one more step
  have hclosed : (d.serving { call := .look } .between).Works
      ({ d with channel := d.channel.round.2 }.closed { call := .look } polls
        d.channel.round.1.reply) := by
    cases hreply : d.channel.round.1.reply with
    | some r =>
      rw [hreply] at hround
      exact hround
    | none =>
      rw [hreply] at hround
      exact hround.trans (works_worked _)
  obtain ⟨k, hk⟩ := hclosed
  rw [← hcall] at hk
  cases hreply : d.channel.round.1.reply with
  | some r =>
    rw [hreply] at hk
    exact ⟨k, polls, .reply r, rfl, by rw [hd]; exact hk⟩
  | none =>
    rw [hreply] at hk
    exact ⟨k, polls, .nothing, rfl, by rw [hd]; exact hk⟩

/-- The look brings what its round brought. -/
theorem look_round {count millis : Nat} (h : d.Sound count millis) (hd : d.underway = none) :
    ∃ k polls a, Call.look.answer d.channel.round.1.reply = some a ∧
      polls.filterMap Poll.reply = d.channel.round.1.reply.toList ∧
      d.run (Call.look.events k) = { d with
        channel := d.channel.round.2
        served := d.served ++ [({ call := .look, rounds := [polls] }, a)] } := by
  obtain ⟨k, polls, a, ha, hrun⟩ := look_works hd
  refine ⟨k, polls, a, ha, ?_, hrun⟩
  have hsound : (d.run (Call.look.events k)).Sound count millis :=
    List.foldlRecOn (Call.look.events k) Desk.step h fun _ hd e _ => hd.step e
  rw [hrun] at hsound
  have hanswer := (hsound.served _ a (List.mem_append_right _ (List.mem_singleton.2 rfl))).answer
  have hreplies : ({ call := .look, rounds := [polls] } : Service).replies =
      polls.filterMap Poll.reply := by
    rw [Service.replies, List.flatten_singleton]
  rw [hreplies] at hanswer
  cases hreply : d.channel.round.1.reply <;> rw [hreply] at ha <;> cases ha <;> exact hanswer

/-- Whatever is called, sent and dropped, and whenever: among as many rounds in a row as there are
sources each source is polled first exactly once, and a source that replies whenever it is polled is
heard in the round in which it is. A look is such a round. -/
theorem turns_are_fair :
    (∀ (c : Channel) (events : List Event) (window : List (List Poll)), 0 < c.sources.length →
      window <:+: (({ channel := c } : Desk).run events).rounds →
      window.length = c.sources.length →
      (window.map firstPlace).Perm ((List.range c.sources.length).map some) ∧
        ∀ i < c.sources.length,
          (∀ polls ∈ window, ∀ p ∈ polls, p.place = i → p.reply.isSome) →
            ∃ r, [⟨i, some r⟩] ∈ window) ∧
    ∀ (c : Channel) (events : List Event), let d := ({ channel := c } : Desk).run events
      d.underway = none → ∃ k polls a,
        Call.look.answer d.channel.round.1.reply = some a ∧
        polls.filterMap Poll.reply = d.channel.round.1.reply.toList ∧
        d.run (Call.look.events k) = { d with
          channel := d.channel.round.2
          served := d.served ++ [({ call := .look, rounds := [polls] }, a)] } := by
  refine ⟨fun c events window hpos hw hlength => ?_,
    fun c events => look_round (run_sound c events)⟩
  have hperm := (run_rotating hpos events).window_perm hw hlength
  refine ⟨hperm, fun i hi hreplies => ?_⟩
  have hmem : some i ∈ window.map firstPlace :=
    hperm.mem_iff.2 (List.mem_map_of_mem (List.mem_range.2 hi))
  obtain ⟨polls, hpolls, hfirst⟩ := List.mem_map.1 hmem
  obtain ⟨before, after, hrounds⟩ := hw
  have hcomplete := (run_sound c events).complete (by simp [← hrounds, hpolls] : polls ∈ _)
  obtain ⟨r, rfl⟩ := hcomplete.eq_singleton hfirst (hreplies polls hpolls)
  exact ⟨r, hpolls⟩

/-- The cursor stands at the second source, which always replies. -/
def livelyDesk : Desk where
  channel := {
    sources := [.line [] .open, .polled (List.replicate 5 (some .proceed))]
    pollMillis := 10
    next := 7 }

def twoLooks : List Event :=
  Call.look.events 2 ++ [.send 0 .proceed] ++ Call.look.events 2

theorem quiet_source_heard :
    (livelyDesk.run twoLooks).rounds = [[⟨1, some .proceed⟩], [⟨0, some .proceed⟩]] ∧
      ((livelyDesk.run twoLooks).rounds.map firstPlace).Perm [some 0, some 1] ∧
      ∃ r, [⟨0, some r⟩] ∈ (livelyDesk.run twoLooks).rounds := by
  have hrounds :
      (livelyDesk.run twoLooks).rounds = [[⟨1, some .proceed⟩], [⟨0, some .proceed⟩]] := rfl
  obtain ⟨hperm, hheard⟩ := turns_are_fair.1 livelyDesk.channel twoLooks
    (livelyDesk.run twoLooks).rounds (by decide) (List.infix_refl _) (by rw [hrounds]; rfl)
  refine ⟨hrounds, hperm, hheard 0 (by decide) ?_⟩
  rw [hrounds]
  simp

end Desk

end LoadBench
