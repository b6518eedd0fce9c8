import Sharding.Number.Power
import Sharding.Sorting.Halves

/-!
# Sorting by runs

A list is cut into runs, and neighbouring runs are merged until one is left.  A stretch that
already rises, or that falls, is a run when it is long enough; any other stretch is cut at a fixed
length.  It is sorted at once or when it meets a run in order, and until then it only grows.

Which runs are merged first depends on where they lie: the boundary between two runs has a depth in
the binary tree over all positions, and the deepest boundaries are merged first.
-/

namespace Sharding.Sorting

/-- A stretch of a list, and whether it is in order. -/
structure Run (α : Type) where
  items : List α
  ordered : Bool

/-- How stretches become runs. -/
structure RunPolicy (α : Type) where
  /-- The least length of a run that is found in order. -/
  leastLength : Nat
  /-- The length of any other run. -/
  cutLength : Nat
  /-- The sort of a run that is not in order. -/
  sort : List α → Option (List α)
  /-- Whether such a run is sorted at once. -/
  early : Bool

variable {α : Type} (less : α → α → Bool)

/-- The run in order, sorted by the policy if need be. -/
def Run.arrange (policy : RunPolicy α) (run : Run α) : Option (List α) :=
  if run.ordered then some run.items else policy.sort run.items

/-! ## Finding runs -/

/-- The number of elements that go on, each with the one before it, as the test says. -/
def follow (goesOn : α → α → Bool) : α → List α → Nat
  | x, y :: ys => if goesOn x y then follow goesOn y ys + 1 else 0
  | _, [] => 0

/-- The stretch that starts with `x` and rises or falls, as a run in order, and its length less
one. -/
def naturalRun (x : α) (xs : List α) : Run α × Nat :=
  let falls := xs.head?.any (less · x)
  let more := follow (fun a b => less b a == falls) x xs
  let items := x :: xs.take more
  (⟨if falls then items.reverse else items, true⟩, more)

/-- The first run of a list that starts with `x`, and its length less one. -/
def firstRun (policy : RunPolicy α) (x : α) (xs : List α) : Option (Run α × Nat) :=
  let (run, more) := naturalRun less x xs
  if policy.leastLength ≤ more + 1 then some (run, more)
  else do
    let more := policy.cutLength - 1
    let run : Run α := ⟨x :: xs.take more, false⟩
    if policy.early then return (⟨← run.arrange policy, true⟩, more)
    return (run, more)

/-- The runs of a list. -/
def runs (policy : RunPolicy α) : List α → Option (List (Run α))
  | [] => some []
  | x :: xs => do
    let (run, more) ← firstRun less policy x xs
    let later ← runs policy (xs.drop more)
    return run :: later
termination_by xs => xs.length
decreasing_by simp only [List.length_drop, List.length_cons]; omega

/-! ## Merging runs -/

/-- Merges two lists in order, of equal elements those of the first list first.  The merge starts at
the front, or at the back when the second list is the shorter one. -/
def merge (xs ys : List α) : List α :=
  if xs.length ≤ ys.length then xs.merge ys fun x y => !less y x
  else (ys.reverse.merge xs.reverse fun y x => !less y x).reverse

/-- Joins two neighbouring runs.  Two runs that are not in order are only put together. -/
def Run.join (policy : RunPolicy α) (a b : Run α) : Option (Run α) := do
  if a.ordered || b.ordered then
    let xs ← a.arrange policy
    let ys ← b.arrange policy
    return ⟨merge less xs ys, true⟩
  return ⟨a.items ++ b.items, false⟩

/-- The number of binary digits of `n`. -/
def binaryLength (n : Nat) : Nat :=
  if n = 0 then 0 else n.log2 + 1

/-- The depth of the boundary at `mid` between the runs from `left` to `mid` and from `mid` to
`right` of a list of `total` elements: the number of binary digits, of 64, in which the centres of
the two runs agree, with the length of the list scaled to a power of two. -/
def boundaryDepth (total left mid right : Nat) : Nat :=
  let scale := (twoTo 62 + total - 1) / total
  64 - binaryLength ((scale * (left + mid)) ^^^ (scale * (mid + right)))

/-- Joins a run to the runs before it, as far as their boundaries lie at `depth` or deeper.  The
runs before it are given in reverse, each with the depth of the boundary behind it and the one
before. -/
def settle (policy : RunPolicy α) (depth : Nat) :
    List (Run α × Nat) → Run α → Option (List (Run α × Nat) × Run α)
  | (earlier, d) :: stack, run =>
    if depth ≤ d then do
      let joined ← earlier.join less policy run
      settle policy depth stack joined
    else some ((earlier, d) :: stack, run)
  | [], run => some ([], run)

/-- Merges a run, which starts at `start`, with the runs behind it and those of the stack. -/
def mergeRuns (policy : RunPolicy α) (total : Nat) (stack : List (Run α × Nat)) (start : Nat)
    (run : Run α) : List (Run α) → Option (Run α)
  | [] => return (← settle less policy 0 stack run).2
  | next :: later => do
    let mid := start + run.items.length
    let depth := boundaryDepth total start mid (mid + next.items.length)
    let (stack, settled) ← settle less policy depth stack run
    mergeRuns policy total ((settled, depth) :: stack) mid next later

/-- Sorts by runs. -/
def byRuns (policy : RunPolicy α) (xs : List α) : Option (List α) := do
  match ← runs less policy xs with
  | [] => return []
  | first :: later => (← mergeRuns less policy xs.length [] 0 first later).arrange policy

end Sharding.Sorting
