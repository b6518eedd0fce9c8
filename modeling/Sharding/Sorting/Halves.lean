import Sharding.Sorting.Insertion

/-!
# Sorting in two halves

A short list is sorted half by half, and the halves are merged from both ends at once: as many
elements as the first half has are taken from the front, and as many from the back.

The two ends meet when `less` is an order.  When it is none, an element may be taken at both ends
while another one is left over; then there is no result.
-/

namespace Sharding.Sorting

variable {α : Type} (less : α → α → Bool)

/-- Two elements in order. -/
def sortTwo (a b : α) : α × α :=
  if less b a then (b, a) else (a, b)

/-- Four elements in order: two pairs, their first and their last element, and the other two. -/
def sortFour (w x y z : α) : List α :=
  let (a, b) := sortTwo less w x
  let (c, d) := sortTwo less y z
  let (first, left, right, last) :=
    match less c a, less d b with
    | false, false => (a, b, c, d)
    | false, true => (a, c, d, b)
    | true, false => (c, a, b, d)
    | true, true => (c, a, d, b)
  let (left, right) := sortTwo less left right
  [first, left, right, last]

/-- One half in order.  Of a long half the first four elements are sorted together, and the others
are inserted. -/
def sortHalf (long : Bool) (xs : List α) : List α :=
  match long, xs with
  | true, w :: x :: y :: z :: rest => insertAll less (sortFour less w x y z) rest
  | _, xs => insertion less xs

/-- Takes `n` elements from the fronts of two lists, each time the one that comes first.  What the
lists have left comes with them. -/
def takeFront : Nat → List α → List α → List α × List α × List α
  | n + 1, a :: left, b :: right =>
    if less b a then
      let (taken, left, right) := takeFront n (a :: left) right
      (b :: taken, left, right)
    else
      let (taken, left, right) := takeFront n left (b :: right)
      (a :: taken, left, right)
  | _, left, right => ([], left, right)

/-- Merges two halves from both ends.  What neither end has taken stands in the middle. -/
def mergeHalves (left right : List α) : Option (List α) :=
  let (front, left₁, right₁) := takeFront less left.length left right
  let (back, right₂, left₂) :=
    takeFront (fun b a => less a b) left.length right.reverse left.reverse
  let fromLeft := left₁.length + left₂.length
  let fromRight := right₁.length + right₂.length
  if fromLeft < left.length || fromRight < right.length then none
  else
    let middle := left₁.take (fromLeft - left.length) ++ right₁.take (fromRight - right.length)
    some (front ++ middle ++ back.reverse)

/-- The length up to which a list is short. -/
def shortLength : Nat := 32

/-- Sorts a short list. -/
def halves (xs : List α) : Option (List α) :=
  let long := decide (8 ≤ xs.length)
  let half := xs.length / 2
  mergeHalves less (sortHalf less long (xs.take half)) (sortHalf less long (xs.drop half))

end Sharding.Sorting
