import Sharding.Sorting.Quick
import Sharding.Sorting.Runs

/-!
# The adaptive sort

`adaptive` sorts a few elements by insertion and more of them by runs, so that a list that is in
order up to a few places takes few comparisons.  Runs that have to be sorted are sorted by
partition.

There is one stable arrangement of a list by an order, and every method finds it.  Only for a test
that is no order the result depends on the method, and there may be none.
-/

namespace Sharding.Sorting

/-- The number of elements up to which a list is sorted by insertion. -/
def fewElements : Nat := 20

/-- A number near the square root of a positive number. -/
def rootNear (n : Nat) : Nat :=
  let power := twoTo ((n.log2 + 1) / 2)
  (power + n / power) / 2

/-- The length from which a run that is found in order is worth keeping. -/
def goodRunLength (n : Nat) : Nat :=
  if n ≤ 4096 then min (n - n / 2) 64 else rootNear n

variable {α : Type} (less : α → α → Bool)

/-- Sorts by runs; those that are not in order are short and sorted at once. -/
def bySortedRuns (xs : List α) : Option (List α) :=
  byRuns less ⟨goodRunLength xs.length, shortLength, halves less, true⟩ xs

/-- Sorts by partition. -/
def byPartition (xs : List α) : Option (List α) :=
  quick less (bySortedRuns less) (2 * xs.length.log2) none xs

/-- Sorts by runs; those that are not in order are sorted late, and together where they are
neighbours. -/
def byGrowingRuns (xs : List α) : Option (List α) :=
  let good := goodRunLength xs.length
  byRuns less ⟨good, good, byPartition less, false⟩ xs

/-- The list in order, or nothing when `less` turns out to be no order. -/
def adaptive (xs : List α) : Option (List α) :=
  if xs.length ≤ fewElements then some (insertion less xs)
  else if xs.length ≤ 2 * shortLength then bySortedRuns less xs
  else byGrowingRuns less xs

end Sharding.Sorting
