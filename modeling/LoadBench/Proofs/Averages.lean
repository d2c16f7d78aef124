import LoadBench.Bench.Basic
import Mathlib.Algebra.Order.BigOperators.Group.List
import Mathlib.Algebra.Order.Ring.Int

/-!
# Means of readings

A mean of a load cell is taken in one burst, or with a pause between each two readings. Either way
it is the mean of the readings that the cell supplies next, as many as were asked for, and their sum
stays within 64 bits on the way. A cell may be asked directly or through handles, which pass on what
they are asked.
-/

namespace LoadBench

/-! ## Groups of readings -/

section Groups

variable {m : Type → Type} [Monad m]

def readings (read : m Int) : Nat → m (List Int)
  | 0 => pure []
  | n + 1 => do
    let r ← read
    let rs ← readings read n
    return r :: rs

variable [LawfulMonad m] (read : m Int) (pause : m Unit)

theorem sumReadings_eq (n : Nat) (sum : Int) :
    sumReadings read n sum = do return sum + (← readings read n).sum := by
  induction n generalizing sum with
  | zero => simp [sumReadings, readings]
  | succ n ih => simp [sumReadings, readings, ih, Int.add_assoc]

theorem burstMean_eq {n : Nat} (hn : 1 ≤ n) :
    burstMean read n = do return meanOf (← readings read n).sum n := by
  rw [burstMean, if_neg (by omega), sumReadings_eq]
  simp

/-- A pause before a reading makes it a reading like any other. -/
theorem sumPaused_eq (n : Nat) (sum : Int) :
    sumPaused read pause n sum = sumReadings (do pause; read) n sum := by
  induction n generalizing sum with
  | zero => rfl
  | succ n ih => simp [sumPaused, sumReadings, ih]

theorem pausedMean_eq (n : Nat) :
    pausedMean read pause (n + 1) = do
      let r ← read
      let rs ← readings (do pause; read) n
      return meanOf (r :: rs).sum (n + 1) := by
  simp [pausedMean, sumPaused_eq, sumReadings_eq]

end Groups

/-! ## A cell that is watched -/

/-- What is seen of a mean while it is taken. -/
inductive Seen where
  | reading (r : Int)
  | pause (millis : Nat)
  deriving DecidableEq, Repr

structure Watched (σ : Type) where
  cell : σ
  seen : List Seen

namespace Watched

variable {σ : Type}

def read (read : StateM σ Int) : StateM (Watched σ) Int := fun w =>
  let (r, cell) := read w.cell
  (r, ⟨cell, w.seen ++ [.reading r]⟩)

def pause (millis : Nat) : StateM (Watched σ) Unit := fun w =>
  ((), { w with seen := w.seen ++ [.pause millis] })

def readPaused (read : StateM σ Int) (millis : Nat) : StateM (Watched σ) Int := do
  pause millis
  Watched.read read

end Watched

theorem readings_succ {τ : Type} (read : StateM τ Int) (n : Nat) (t : τ) :
    readings read (n + 1) t =
      ((read t).1 :: (readings read n (read t).2).1, (readings read n (read t).2).2) := rfl

theorem length_readings {τ : Type} (read : StateM τ Int) (n : Nat) (t : τ) :
    (readings read n t).1.length = n := by
  induction n generalizing t with
  | zero => rfl
  | succ n ih => rw [readings_succ, List.length_cons, ih]

namespace Watched

variable {σ : Type} {read : StateM σ Int}

/-- Whatever is seen with each reading, the readings are those of the cell. -/
theorem readings_seen {step : StateM (Watched σ) Int} {seen : Int → List Seen}
    (hstep : ∀ w, step w = ((read w.cell).1, ⟨(read w.cell).2, w.seen ++ seen (read w.cell).1⟩))
    (n : Nat) (w : Watched σ) :
    readings step n w = ((readings read n w.cell).1,
      ⟨(readings read n w.cell).2, w.seen ++ (readings read n w.cell).1.flatMap seen⟩) := by
  induction n generalizing w with
  | zero => exact congrArg (Prod.mk []) (congrArg (Watched.mk w.cell) (List.append_nil _).symm)
  | succ n ih =>
    rw [readings_succ, ih, hstep, readings_succ, List.flatMap_cons, ← List.append_assoc]

theorem readings_read (n : Nat) (w : Watched σ) :
    readings (Watched.read read) n w = ((readings read n w.cell).1,
      ⟨(readings read n w.cell).2, w.seen ++ (readings read n w.cell).1.map .reading⟩) := by
  rw [List.map_eq_flatMap]
  refine readings_seen (fun w => ?_) n w
  rfl

theorem readings_readPaused (millis n : Nat) (w : Watched σ) :
    readings (readPaused read millis) n w = ((readings read n w.cell).1,
      ⟨(readings read n w.cell).2,
        w.seen ++ (readings read n w.cell).1.flatMap fun r => [.pause millis, .reading r]⟩) := by
  refine readings_seen (fun w => ?_) n w
  rw [← List.singleton_append, ← List.append_assoc]
  rfl

end Watched

/-- Things in a row are separated once before each but the first. -/
theorem intersperse_cons {α : Type} (sep a : α) (as : List α) :
    (a :: as).intersperse sep = a :: as.flatMap fun b => [sep, b] := by
  induction as generalizing a with
  | nil => rfl
  | cons b as ih => rw [List.intersperse_cons_cons, ih, List.flatMap_cons]; rfl

/-! ## Handles -/

/-- Where a load cell is in a larger state. -/
structure Site (σ τ : Type) where
  look : τ → σ
  put : σ → τ → τ
  look_put : ∀ s t, look (put s t) = s
  put_look : ∀ t, put (look t) t = t
  put_put : ∀ s s' t, put s' (put s t) = put s' t

namespace Site

variable {σ τ υ α β : Type}

def own (σ : Type) : Site σ σ where
  look := id
  put s _ := s
  look_put _ _ := rfl
  put_look _ := rfl
  put_put _ _ _ := rfl

def inside (p : Site σ τ) (q : Site τ υ) : Site σ υ where
  look u := p.look (q.look u)
  put s u := q.put (p.put s (q.look u)) u
  look_put s u := by rw [q.look_put, p.look_put]
  put_look u := by rw [p.put_look, q.put_look]
  put_put s s' u := by rw [q.look_put, q.put_put, p.put_put]

def within (p : Site σ τ) (act : StateM σ α) : StateM τ α := fun t =>
  ((act (p.look t)).1, p.put (act (p.look t)).2 t)

theorem within_pure (p : Site σ τ) (a : α) : p.within (pure a) = pure a := by
  funext t
  exact congrArg (Prod.mk a) (p.put_look t)

theorem within_bind (p : Site σ τ) (act : StateM σ α) (next : α → StateM σ β) :
    p.within (act >>= next) = p.within act >>= fun a => p.within (next a) := by
  funext t
  change _ = p.within (next (act (p.look t)).1) (p.put (act (p.look t)).2 t)
  simp only [within, p.look_put, p.put_put]
  rfl

theorem sumPaused_within (p : Site σ τ) (read : StateM σ Int) (pause : StateM σ Unit) (n : Nat)
    (sum : Int) :
    sumPaused (p.within read) (p.within pause) n sum = p.within (sumPaused read pause n sum) := by
  induction n generalizing sum with
  | zero => exact (p.within_pure sum).symm
  | succ n ih => simp only [sumPaused, within_bind, ih]

theorem pausedMean_within (p : Site σ τ) (read : StateM σ Int) (pause : StateM σ Unit) (n : Nat) :
    pausedMean (p.within read) (p.within pause) n = p.within (pausedMean read pause n) := by
  simp only [pausedMean, within_bind, sumPaused_within, within_pure]

end Site

/-- What a load cell can be asked: a reading, and the mean of a burst. -/
structure Gauge (τ : Type) where
  reading : StateM τ Int
  mean : Nat → StateM τ Single

namespace Gauge

variable {σ τ υ : Type}

def direct (read : StateM σ Int) : Gauge σ where
  reading := read
  mean := burstMean read

/-- A handle on a load cell passes on what it is asked, a mean as a whole. -/
def through (g : Gauge τ) (q : Site τ υ) : Gauge υ where
  reading := q.within g.reading
  mean n := q.within (g.mean n)

/-- A load cell is asked directly or through handles, one after the other. -/
inductive Reaches (read : StateM σ Int) : {τ : Type} → Gauge τ → Site σ τ → Prop where
  | direct : Reaches read (direct read) (.own σ)
  | through {τ υ : Type} {g : Gauge τ} {p : Site σ τ} (h : Reaches read g p) (q : Site τ υ) :
    Reaches read (g.through q) (p.inside q)

/-- Through any handles a load cell is asked as it would be asked directly. -/
theorem Reaches.eq {read : StateM σ Int} {g : Gauge τ} {p : Site σ τ} (h : Reaches read g p) :
    g = (Gauge.direct read).through p := by
  induction h with
  | direct => rfl
  | through h q ih => rw [ih]; rfl

end Gauge

/-! ## Sums of 64 bits -/

/-- A sum kept in 64 bits. -/
def wordSum (rs : List Int) : Int64 := rs.foldl (fun sum r => sum + .ofInt r) 0

theorem wordSum_eq (rs : List Int) : wordSum rs = .ofInt rs.sum := by
  have hfold (sum : Int) : rs.foldl (fun sum r => sum + .ofInt r) (.ofInt sum) =
      Int64.ofInt (sum + rs.sum) := by
    induction rs generalizing sum with
    | nil => simp
    | cons r rs ih =>
      rw [List.foldl_cons, ← Int64.ofInt_add, ih, List.sum_cons, Int.add_assoc]
  have hstart := hfold 0
  rwa [Int.zero_add] at hstart

/-- Readings of 32 bits, fewer than 2 ^ 32 of them, add up to 64 bits. -/
theorem sum_mem_word {rs : List Int} (hword : ∀ r ∈ rs, -0x80000000 ≤ r ∧ r < 0x80000000)
    (hlength : rs.length ≤ 0xFFFFFFFF) :
    -0x8000000000000000 ≤ rs.sum ∧ rs.sum < 0x8000000000000000 := by
  have hlow := List.card_nsmul_le_sum rs (-0x80000000) fun r hr => (hword r hr).1
  have hhigh := List.sum_le_card_nsmul rs 0x7FFFFFFF fun r hr => Int.le_sub_one_of_lt (hword r hr).2
  rw [Int.nsmul_eq_mul] at hlow hhigh
  omega

/-! ## Both ways -/

namespace Watched

variable {σ : Type} {read : StateM σ Int}

theorem burstMean_read {n : Nat} (hn : 1 ≤ n) (w : Watched σ) :
    burstMean (Watched.read read) n w = (meanOf (readings read n w.cell).1.sum n,
      ⟨(readings read n w.cell).2, w.seen ++ (readings read n w.cell).1.map .reading⟩) := by
  rw [burstMean_eq _ hn]
  change (meanOf (readings (Watched.read read) n w).1.sum n,
    (readings (Watched.read read) n w).2) = _
  rw [readings_read]

/-- The loop over a watched sensor reads it, pauses between any two readings and never after the
last, and takes the mean of what was read. -/
theorem pausedMean_read {n : Nat} (hn : 1 ≤ n) (millis : Nat) (w : Watched σ) :
    pausedMean (Watched.read read) (pause millis) n w = (meanOf (readings read n w.cell).1.sum n,
      ⟨(readings read n w.cell).2,
        w.seen ++ ((readings read n w.cell).1.map Seen.reading).intersperse (.pause millis)⟩) := by
  obtain ⟨n, rfl⟩ : ∃ k, n = k + 1 := ⟨n - 1, by omega⟩
  rw [pausedMean_eq]
  change (meanOf ((Watched.read read w).1 ::
      (readings (readPaused read millis) n (Watched.read read w).2).1).sum (n + 1),
    (readings (readPaused read millis) n (Watched.read read w).2).2) = _
  rw [readings_readPaused, readings_succ, List.map_cons, intersperse_cons, List.flatMap_map,
    List.append_cons]
  rfl

end Watched

/-- There is one pause fewer than there are readings. -/
theorem count_pause_intersperse (rs : List Int) (millis : Nat) :
    ((rs.map Seen.reading).intersperse (.pause millis)).count (.pause millis) = rs.length - 1 := by
  cases rs with
  | nil => rfl
  | cons r rs =>
    rw [List.map_cons, intersperse_cons, List.flatMap_map, List.count_cons_of_ne (by simp),
      List.length_cons, Nat.add_sub_cancel]
    induction rs with
    | nil => rfl
    | cons r rs ih =>
      have hone : [Seen.pause millis, .reading r].count (.pause millis) = 1 := by simp
      rw [List.flatMap_cons, List.count_append, ih, hone, List.length_cons, Nat.add_comm]

/-- A mean of at least one and at most 2 ^ 32 - 1 readings of 32 bits takes as many readings as it was
asked for, in a burst that reaches the cell through any handles as well as with pauses. Both ways it
is their exact sum over their number, each rounded to a single. With pauses there is one between each
two readings. The sum of the readings that were taken at any time fits into 64 bits and is never
wrapped around. -/
theorem means_agree {σ τ : Type} {read : StateM σ Int} {g : Gauge τ} {p : Site (Watched σ) τ}
    (hg : Gauge.Reaches (Watched.read read) g p) {n : Nat} (hmin : 1 ≤ n) (hmax : n ≤ 0xFFFFFFFF)
    (millis : Nat) (t : τ)
    (hword : ∀ r ∈ (readings read n (p.look t).cell).1, -0x80000000 ≤ r ∧ r < 0x80000000) :
    let (rs, cell) := readings read n (p.look t).cell
    let spaced := (rs.map Seen.reading).intersperse (.pause millis)
    rs.length = n ∧
    g.mean n t = (.ofInt rs.sum / .ofInt n, p.put ⟨cell, (p.look t).seen ++ rs.map .reading⟩ t) ∧
    pausedMean g.reading (p.within (Watched.pause millis)) n t =
      (.ofInt rs.sum / .ofInt n, p.put ⟨cell, (p.look t).seen ++ spaced⟩ t) ∧
    spaced.count (.pause millis) = n - 1 ∧
    ∀ front, front <+: rs → -0x8000000000000000 ≤ front.sum ∧ front.sum < 0x8000000000000000 ∧
      (wordSum front).toInt = front.sum := by
  have hlength := length_readings read n (p.look t).cell
  obtain rfl := hg.eq
  refine ⟨hlength, ?_, ?_, ?_, fun front hfront => ?_⟩
  · exact congrArg (fun r => (r.1, p.put r.2 t)) (Watched.burstMean_read hmin (p.look t))
  · change pausedMean (p.within (Watched.read read)) _ n t = _
    rw [Site.pausedMean_within]
    exact congrArg (fun r => (r.1, p.put r.2 t)) (Watched.pausedMean_read hmin millis (p.look t))
  · rw [count_pause_intersperse, hlength]
  · obtain ⟨hlow, hhigh⟩ := sum_mem_word (fun r hr => hword r (hfront.subset hr))
      (by have := hfront.length_le; omega)
    refine ⟨hlow, hhigh, ?_⟩
    rw [wordSum_eq]
    exact Int64.toInt_ofInt_of_le hlow hhigh

/-- A load cell that swings between the least and the greatest reading. -/
def swinging : StateM Nat Int := fun k => (if k % 2 = 0 then -0x80000000 else 0x7FFFFFFF, k + 1)

/-- A load cell beside something else. -/
def Site.beside (σ τ : Type) : Site σ (σ × τ) where
  look := Prod.fst
  put s t := (s, t.2)
  look_put _ _ := rfl
  put_look _ := rfl
  put_put _ _ _ := rfl

theorem swinging_means_agree :
    let g := (Gauge.direct (Watched.read swinging)).through (.beside (Watched Nat) Unit)
    let pause := (Site.beside (Watched Nat) Unit).within (Watched.pause 100)
    (∀ r ∈ (readings swinging 3 0).1, -0x80000000 ≤ r ∧ r < 0x80000000) ∧
    (g.mean 3 (⟨0, []⟩, ())).1 = .ofInt (-0x80000001) / .ofInt 3 ∧
    pausedMean g.reading pause 3 (⟨0, []⟩, ()) = (.ofInt (-0x80000001) / .ofInt 3,
      ⟨3, [.reading (-0x80000000), .pause 100, .reading 0x7FFFFFFF, .pause 100,
        .reading (-0x80000000)]⟩, ()) := by
  intro g pause
  have hword : ∀ r ∈ (readings swinging 3 0).1, -0x80000000 ≤ r ∧ r < 0x80000000 := by decide
  obtain ⟨_, hburst, hpaused, _⟩ := means_agree
    (Gauge.Reaches.through .direct (.beside (Watched Nat) Unit)) (show 1 ≤ 3 by decide) (by decide)
    100 (⟨0, []⟩, ()) hword
  exact ⟨hword, congrArg Prod.fst hburst, hpaused⟩

end LoadBench
