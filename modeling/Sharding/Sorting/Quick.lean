import Sharding.Sorting.Halves

/-!
# Sorting by partition

A long list is divided at a pivot, and both parts are sorted.  The pivot is the middle one of three
elements, or of three such middle ones in a longer list.

A part on the right is divided at a pivot that does not come before it, its lower bound.  When a
pivot does not come after that bound, the part starts with elements equal to the pivot; these are
split off and need no further sorting.  The same is done when no element comes before the pivot.
-/

namespace Sharding.Sorting

/-- The middle one of three positions, by a test on positions. -/
def medianOfThree (less : Nat → Nat → Bool) (a b c : Nat) : Nat :=
  if less a b != less a c then a
  else if less b c != less a b then c
  else b

/-- The middle one of three positions, each of which is first replaced by such a middle one as long
as `step` positions from it on can be divided by eight. -/
def medianOfMedians (less : Nat → Nat → Bool) (step a b c : Nat) : Nat :=
  if 8 ≤ step then
    let eighth := step / 8
    let median i := medianOfMedians less eighth i (i + 4 * eighth) (i + 7 * eighth)
    medianOfThree less (median a) (median b) (median c)
  else medianOfThree less a b c
termination_by step

variable {α : Type} (less : α → α → Bool)

/-- The element to divide a list at. -/
def pivot? (xs : List α) : Option α :=
  let items := xs.toArray
  let lessAt i j :=
    match items[i]?, items[j]? with
    | some x, some y => less x y
    | _, _ => false
  let eighth := items.size / 8
  items[medianOfMedians lessAt eighth 0 (4 * eighth) (7 * eighth)]?

/-- Sorts by partition, at most `limit` times over the same elements; what is then still long is
sorted by `other`. -/
def quick (other : List α → Option (List α)) : (limit : Nat) → (bound : Option α) → List α →
    Option (List α)
  | limit, bound, xs =>
    if xs.length ≤ shortLength then halves less xs
    else
      match limit, pivot? less xs with
      | 0, _ | _, none => other xs
      | limit + 1, some pivot => do
        let (before, rest) := xs.partition (less · pivot)
        if before.isEmpty || bound.any (!less · pivot) then
          let (equal, after) := xs.partition (!less pivot ·)
          let after ← quick other limit none after
          return equal ++ after
        else
          let rest ← quick other limit (some pivot) rest
          let before ← quick other limit bound before
          return before ++ rest

end Sharding.Sorting
