import LoadBench.Number.Single

/-!
# The simulated load cell

A reading is the zero count plus the load in counts, rounded. Two ways to average readings are
given for any source of readings: in one burst, and with a pause between each two.
-/

namespace LoadBench

/-- A number of counts, in 32 bits; sums wrap around. -/
abbrev Counts := Int32

/-- A number as counts, modulo 2 ^ 32. -/
instance : Coe Int Counts := ⟨Int32.ofInt⟩

/-- A linear load cell and what its amplifier was told. -/
structure LoadCell where
  zeroCounts : Counts
  countsPerUnit : Single
  /-- The load on the cell. -/
  load : Single := 0
  /-- Readings taken since the beginning. -/
  reads : Nat := 0
  /-- Scale divider stored in the amplifier. -/
  driverScale : Single := 1
  /-- Offset stored in the amplifier. -/
  driverOffset : Single := 0

namespace LoadCell

/-- The reading at the present load. -/
def raw (c : LoadCell) : Int :=
  let loaded : Counts := (c.load * c.countsPerUnit).nearest (-0x80000000) 0x7FFFFFFF
  (c.zeroCounts + loaded).toInt

def read : StateM LoadCell Int := fun c => (c.raw, { c with reads := c.reads + 1 })

end LoadCell

section Averages

variable {m : Type → Type} [Monad m]

def sumReadings (read : m Int) : Nat → Int → m Int
  | 0, sum => pure sum
  | n + 1, sum => do sumReadings read n (sum + (← read))

/-- The sum of `n` readings, each after a pause, and `sum`. -/
def sumPaused (read : m Int) (pause : m Unit) : Nat → Int → m Int
  | 0, sum => pure sum
  | n + 1, sum => do
    pause
    sumPaused read pause n (sum + (← read))

def meanOf (sum : Int) (n : Nat) : Single := .ofInt sum / .ofInt n

/-- The mean of `n` readings in one burst; zero if there are none. -/
def burstMean (read : m Int) (n : Nat) : m Single :=
  if n = 0 then pure 0 else do return meanOf (← sumReadings read n 0) n

/-- The mean of `n` readings, at least one, with a pause between each two. -/
def pausedMean (read : m Int) (pause : m Unit) (n : Nat) : m Single := do
  let n := max n 1
  let first ← read
  return meanOf (← sumPaused read pause (n - 1) first) n

end Averages

end LoadBench
