import Mathlib.Data.List.Basic

/-!
# Interleavings

`Interleaves lists out` says that `out` takes its elements from some lists, and those of each list
in their own order.  The rows of a merge interleave the rows of its sources, and the calls of a
dispatched execution interleave the calls of its workers.
-/

namespace Sharding

/-- The list `out` takes, again and again, the first element that is left of one of the lists. -/
inductive Interleaves {α : Type} : List (List α) → List α → Prop where
  | finish {lists} : (∀ xs ∈ lists, xs = []) → Interleaves lists []
  | take {before after x xs out} : Interleaves (before ++ xs :: after) out →
      Interleaves (before ++ (x :: xs) :: after) (x :: out)

namespace Interleaves

variable {α : Type} {lists : List (List α)} {out : List α}

/-- No element is lost and none is duplicated. -/
theorem perm (h : Interleaves lists out) : out.Perm lists.flatten := by
  induction h with
  | finish hnil =>
    rw [List.flatten_eq_nil_iff.2 hnil]
  | take _ ih =>
    simp only [List.flatten_append, List.flatten_cons, List.cons_append] at ih ⊢
    exact (ih.cons _).trans List.perm_middle.symm

/-- Each list keeps its own order. -/
theorem sublist (h : Interleaves lists out) : ∀ xs ∈ lists, xs.Sublist out := by
  induction h with
  | finish hnil =>
    intro xs hxs
    rw [hnil xs hxs]
  | take _ ih =>
    rename_i before after x xs out _
    intro ys hys
    rcases List.mem_append.1 hys with hmem | hmem
    · exact (ih ys (List.mem_append_left _ hmem)).cons x
    · rcases List.mem_cons.1 hmem with rfl | hmem
      · exact (ih xs (List.mem_append_right _ List.mem_cons_self)).cons_cons x
      · exact (ih ys (List.mem_append_right _ (List.mem_cons_of_mem _ hmem))).cons x

/-- Several elements of one list may come at once. -/
theorem takeAll {before after : List (List α)} {first rest : List α}
    (h : Interleaves (before ++ rest :: after) out) :
    Interleaves (before ++ (first ++ rest) :: after) (first ++ out) := by
  induction first with
  | nil => exact h
  | cons x first ih => exact .take ih

/-- A list of which nothing is left. -/
theorem nil_cons (h : Interleaves lists out) : Interleaves ([] :: lists) out := by
  induction h with
  | finish hnil => exact .finish (List.forall_mem_cons.2 ⟨rfl, hnil⟩)
  | @take before after x xs out _ ih =>
    have hrest : Interleaves (([] :: before) ++ xs :: after) out := ih
    exact hrest.take

/-- One list after the other. -/
theorem flatten (lists : List (List α)) : Interleaves lists lists.flatten := by
  induction lists with
  | nil => exact .finish fun _ hxs => absurd hxs List.not_mem_nil
  | cons xs lists ih =>
    have hrest : Interleaves ([] ++ [] :: lists) lists.flatten := ih.nil_cons
    have hall : Interleaves ((xs ++ []) :: lists) (xs ++ lists.flatten) := hrest.takeAll
    rwa [List.append_nil] at hall

end Interleaves

end Sharding
