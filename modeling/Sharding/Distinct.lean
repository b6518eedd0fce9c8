/-!
# First occurrences

`distinctBy same xs` keeps the elements of `xs` that are the same as no element kept before them,
in the order of the list.  `distinct` is the case where sameness is equality.
-/

namespace Sharding

/-- Continues with some elements already kept. -/
def distinctFrom {α : Type} (same : α → α → Bool) (kept : List α) : List α → List α
  | [] => []
  | x :: xs =>
    if kept.any (same · x) then distinctFrom same kept xs
    else x :: distinctFrom same (kept ++ [x]) xs

/-- The elements that are the same as no element kept before them. -/
def distinctBy {α : Type} (same : α → α → Bool) (xs : List α) : List α :=
  distinctFrom same [] xs

/-- The elements that do not occur earlier in the list. -/
def distinct {α : Type} [DecidableEq α] (xs : List α) : List α :=
  distinctBy (fun a b => decide (a = b)) xs

/-- Nothing is moved and nothing is added. -/
theorem distinctFrom_sublist {α : Type} (same : α → α → Bool) (kept xs : List α) :
    (distinctFrom same kept xs).Sublist xs := by
  induction xs generalizing kept with
  | nil => exact List.Sublist.refl _
  | cons x xs ih =>
    unfold distinctFrom
    split
    · exact (ih kept).cons x
    · exact (ih _).cons_cons x

theorem mem_distinctFrom {α : Type} [DecidableEq α] {kept xs : List α} {a : α} :
    a ∈ distinctFrom (fun a b => decide (a = b)) kept xs ↔ a ∈ xs ∧ a ∉ kept := by
  induction xs generalizing kept with
  | nil => simp [distinctFrom]
  | cons x xs ih =>
    unfold distinctFrom
    split
    · rename_i h
      have hx : x ∈ kept := by simpa using h
      rw [ih]
      constructor
      · rintro ⟨h1, h2⟩
        exact ⟨List.mem_cons_of_mem _ h1, h2⟩
      · rintro ⟨h1, h2⟩
        rcases List.mem_cons.1 h1 with rfl | h1
        · exact absurd hx h2
        · exact ⟨h1, h2⟩
    · rename_i h
      have hx : x ∉ kept := by simpa using h
      rw [List.mem_cons, ih]
      constructor
      · rintro (rfl | ⟨h1, h2⟩)
        · exact ⟨List.mem_cons_self, hx⟩
        · exact ⟨List.mem_cons_of_mem _ h1, fun hk => h2 (List.mem_append_left _ hk)⟩
      · rintro ⟨h1, h2⟩
        by_cases hax : a = x
        · exact .inl hax
        · refine .inr ⟨(List.mem_cons.1 h1).resolve_left hax, fun hk => ?_⟩
          rcases List.mem_append.1 hk with hk | hk
          · exact h2 hk
          · exact hax (List.mem_singleton.1 hk)

/-- The same elements occur before and after. -/
@[simp] theorem mem_distinct {α : Type} [DecidableEq α] {xs : List α} {a : α} :
    a ∈ distinct xs ↔ a ∈ xs := by
  simp [distinct, distinctBy, mem_distinctFrom]

/-- No element occurs twice afterwards. -/
theorem nodup_distinct {α : Type} [DecidableEq α] (xs : List α) : (distinct xs).Nodup := by
  unfold distinct distinctBy
  generalize ([] : List α) = kept
  induction xs generalizing kept with
  | nil => simp [distinctFrom]
  | cons x xs ih =>
    unfold distinctFrom
    split
    · exact ih kept
    · refine List.nodup_cons.2 ⟨fun h => ?_, ih _⟩
      exact (mem_distinctFrom.1 h).2 (by simp)

end Sharding
