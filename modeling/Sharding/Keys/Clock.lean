/-!
# Clocks

A `Clock` is the sequence of its readings in milliseconds: first runs of equal readings, in any
order, and after them one more for each reading.  Every finite sequence of readings is the start of
such a sequence.
-/

namespace Sharding

/-- The readings of a clock. -/
structure Clock where
  /-- The next readings, each with the number of times that it comes. -/
  upcoming : List (Nat × Nat)
  /-- The reading after those; from there on the clock counts up by one. -/
  resume : Nat
deriving DecidableEq

namespace Clock

/-- The clock that repeats each of some readings a number of times and then counts up from the last
one. -/
def ofRuns (runs : List (Nat × Nat)) : Clock where
  upcoming := runs
  resume := (runs.getLast?.map (·.1)).getD 0 + 1

/-- The next reading, which is the first of `upcoming` that still comes. -/
def readFrom (resume : Nat) : List (Nat × Nat) → Nat × Clock
  | [] => (resume, ⟨[], resume + 1⟩)
  | (_, 0) :: later => readFrom resume later
  | (now, times + 1) :: later => (now, ⟨(now, times) :: later, resume⟩)

/-- The next reading. -/
def read (c : Clock) : Nat × Clock :=
  readFrom c.resume c.upcoming

/-- Reads on until a reading lies behind `last`.  A run that does not is read to its end. -/
def readPastFrom (last resume : Nat) : List (Nat × Nat) → Nat × Clock
  | [] =>
    let now := max resume (last + 1)
    (now, ⟨[], now + 1⟩)
  | (_, 0) :: later => readPastFrom last resume later
  | (now, times + 1) :: later =>
    if last < now then (now, ⟨(now, times) :: later, resume⟩)
    else readPastFrom last resume later

/-- The first reading behind `last`. -/
def readPast (c : Clock) (last : Nat) : Nat × Clock :=
  readPastFrom last c.resume c.upcoming

theorem lt_readPast (c : Clock) (last : Nat) : last < (c.readPast last).1 := by
  unfold readPast
  induction c.upcoming with
  | nil => simp only [readPastFrom]; omega
  | cons run later ih =>
    obtain ⟨now, times⟩ := run
    cases times with
    | zero => exact ih
    | succ times =>
      unfold readPastFrom
      split
      · assumption
      · exact ih

end Clock

end Sharding
