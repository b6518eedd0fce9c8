/-!
# Chunks of a list

`chunks size xs` cuts a list into pieces of the given size, the last of which may be shorter.
`ceilDiv n d` is the size of the pieces when `n` elements are cut into at most `d` pieces.
-/

namespace Sharding

/-- A quotient, rounded up. -/
def ceilDiv (n d : Nat) : Nat :=
  (n + d - 1) / d

/-- Cuts a list into pieces of `size` elements; pieces have at least one element. -/
def chunks {α : Type} (size : Nat) : List α → List (List α)
  | [] => []
  | x :: xs => (x :: xs.take (size - 1)) :: chunks size (xs.drop (size - 1))
termination_by xs => xs.length
decreasing_by simp only [List.length_cons, List.length_drop]; omega

/-- Nothing is lost, and the order is kept. -/
@[simp] theorem flatten_chunks {α : Type} (size : Nat) (xs : List α) :
    (chunks size xs).flatten = xs := by
  fun_induction chunks size xs with
  | case1 => rfl
  | case2 x xs ih => simp [ih]

theorem ne_nil_of_mem_chunks {α : Type} {size : Nat} {xs piece : List α}
    (h : piece ∈ chunks size xs) : piece ≠ [] := by
  fun_induction chunks size xs with
  | case1 => simp at h
  | case2 x xs ih =>
    rcases List.mem_cons.1 h with rfl | h
    · exact List.cons_ne_nil _ _
    · exact ih h

theorem length_le_of_mem_chunks {α : Type} {size : Nat} {xs piece : List α}
    (h : piece ∈ chunks size xs) : piece.length ≤ max size 1 := by
  fun_induction chunks size xs with
  | case1 => simp at h
  | case2 x xs ih =>
    rcases List.mem_cons.1 h with rfl | h
    · simp only [List.length_cons, List.length_take]; omega
    · exact ih h

theorem le_mul_ceilDiv (n : Nat) {d : Nat} (hd : 0 < d) : n ≤ d * ceilDiv n d := by
  have hsum := Nat.div_add_mod (n + d - 1) d
  have hmod := Nat.mod_lt (n + d - 1) hd
  unfold ceilDiv
  omega

/-- Pieces that are large enough for `count` of them to hold all elements are no more than that. -/
theorem length_chunks_le {α : Type} {size count : Nat} {xs : List α}
    (h : xs.length ≤ count * size) : (chunks size xs).length ≤ count := by
  fun_induction chunks size xs generalizing count with
  | case1 => exact Nat.zero_le count
  | case2 x xs ih =>
    cases count with
    | zero => simp at h
    | succ count =>
      rw [Nat.succ_mul, List.length_cons] at h
      refine Nat.succ_le_succ (ih ?_)
      rw [List.length_drop]
      omega

end Sharding
