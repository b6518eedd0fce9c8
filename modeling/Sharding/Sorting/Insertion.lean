/-!
# Sorting by insertion

The sorts of this folder take a test `less`, which says whether one element comes before another and
holds of no element and itself.  They are stable: of two elements neither of which comes before the
other, the one that stood first stays first.
-/

namespace Sharding.Sorting

/-- Puts an element behind the last one that does not come after it.  The list is given in
reverse. -/
def insertBack {α : Type} (less : α → α → Bool) (x : α) : List α → List α
  | [] => [x]
  | y :: ys => if less x y then y :: insertBack less x ys else x :: y :: ys

/-- Inserts elements, one after the other, into a list that is in order. -/
def insertAll {α : Type} (less : α → α → Bool) (sorted xs : List α) : List α :=
  (xs.foldl (fun back x => insertBack less x back) sorted.reverse).reverse

/-- Sorts by insertion. -/
def insertion {α : Type} (less : α → α → Bool) (xs : List α) : List α :=
  insertAll less [] xs

theorem insertBack_perm {α : Type} (less : α → α → Bool) (x : α) (xs : List α) :
    (insertBack less x xs).Perm (x :: xs) := by
  induction xs with
  | nil => exact .refl _
  | cons y ys ih =>
    unfold insertBack
    split
    · exact (ih.cons y).trans (.swap x y ys)
    · exact .refl _

theorem insertAll_perm {α : Type} (less : α → α → Bool) (sorted xs : List α) :
    (insertAll less sorted xs).Perm (sorted ++ xs) := by
  have h : ∀ back : List α,
      (xs.foldl (fun back x => insertBack less x back) back).Perm (back ++ xs) := by
    induction xs with
    | nil => intro back; simp
    | cons x xs ih =>
      intro back
      exact (ih _).trans (((insertBack_perm less x back).append_right xs).trans
        List.perm_middle.symm)
  exact (List.reverse_perm _).trans ((h _).trans ((List.reverse_perm sorted).append_right xs))

/-- Sorting by insertion keeps all elements. -/
theorem insertion_perm {α : Type} (less : α → α → Bool) (xs : List α) :
    (insertion less xs).Perm xs :=
  insertAll_perm less [] xs

end Sharding.Sorting
