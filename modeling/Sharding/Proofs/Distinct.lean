import Mathlib.Data.List.Induction
import Sharding.Distinct

/-!
# Keeping first occurrences

What `distinctBy` keeps of a list with an addition is what it keeps of the list, and of the addition
what is not the same as something kept before (`distinctFrom_append`).  Lists without repetitions
are kept as they are.
-/

namespace Sharding

variable {α : Type} {same : α → α → Bool} {kept xs ys : List α}

theorem distinctFrom_append (same : α → α → Bool) (kept xs ys : List α) :
    distinctFrom same kept (xs ++ ys) =
      distinctFrom same kept xs ++ distinctFrom same (kept ++ distinctFrom same kept xs) ys := by
  induction xs generalizing kept with
  | nil => rw [List.nil_append, distinctFrom, List.nil_append, List.append_nil]
  | cons x xs ih =>
    rw [List.cons_append, distinctFrom, distinctFrom]
    split
    · exact ih kept
    · rw [ih, List.cons_append, List.append_assoc, List.singleton_append]

/-- Nothing is kept of what is the same as something kept before. -/
theorem distinctFrom_eq_nil (h : ∀ x ∈ xs, kept.any (same · x)) :
    distinctFrom same kept xs = [] := by
  induction xs with
  | nil => rfl
  | cons x xs ih =>
    rw [distinctFrom, if_pos (h x List.mem_cons_self)]
    exact ih fun y hy => h y (List.mem_cons_of_mem _ hy)

theorem distinctFrom_eq_self (hkept : ∀ x ∈ xs, ¬ kept.any (same · x))
    (h : xs.Pairwise fun a b => ¬ same a b) : distinctFrom same kept xs = xs := by
  induction xs generalizing kept with
  | nil => rfl
  | cons x xs ih =>
    obtain ⟨hx, h⟩ := List.pairwise_cons.1 h
    rw [distinctFrom, if_neg (hkept x List.mem_cons_self), ih _ h]
    intro y hy
    rw [List.any_append, Bool.or_eq_true, not_or]
    refine ⟨hkept y (List.mem_cons_of_mem _ hy), ?_⟩
    rw [List.any_cons, List.any_nil, Bool.or_false]
    exact hx y hy

/-- What is kept hangs on which elements of the list are the same. -/
theorem distinctFrom_congr {same' : α → α → Bool} {all : List α}
    (h : ∀ a ∈ all, ∀ b ∈ all, same a b = same' a b) (hkept : kept ⊆ all) (hxs : xs ⊆ all) :
    distinctFrom same kept xs = distinctFrom same' kept xs := by
  induction xs generalizing kept with
  | nil => rfl
  | cons x xs ih =>
    obtain ⟨hx, hxs⟩ := List.cons_subset.1 hxs
    have hany : kept.any (same · x) = kept.any (same' · x) := by
      rw [Bool.eq_iff_iff, List.any_eq_true, List.any_eq_true]
      exact exists_congr fun a => and_congr_right fun ha => by rw [h a (hkept ha) x hx]
    rw [distinctFrom, distinctFrom, hany, ih hkept hxs,
      ih (List.append_subset.2 ⟨hkept, List.cons_subset.2 ⟨hx, List.nil_subset all⟩⟩) hxs]

/-- Every element is kept, or the same as one that is. -/
theorem exists_kept {x : α} (h : x ∈ xs) :
    ∃ y ∈ kept ++ distinctFrom same kept xs, y = x ∨ same y x := by
  induction xs generalizing kept with
  | nil => cases h
  | cons first xs ih =>
    rw [distinctFrom]
    by_cases hfirst : kept.any (same · first) = true
    · rw [if_pos hfirst]
      rcases List.mem_cons.1 h with rfl | h
      · obtain ⟨y, hy, hsame⟩ := List.any_eq_true.1 hfirst
        exact ⟨y, List.mem_append_left _ hy, .inr hsame⟩
      · exact ih h
    · rw [if_neg hfirst, List.append_cons]
      rcases List.mem_cons.1 h with rfl | h
      · exact ⟨x, by simp, .inl rfl⟩
      · exact ih h

theorem exists_kept_distinctBy {x : α} (h : x ∈ xs) :
    ∃ y ∈ distinctBy same xs, y = x ∨ same y x :=
  @exists_kept α same [] xs x h

/-- A list whose elements are not the same is kept as it is. -/
theorem distinctBy_eq_self (h : xs.Pairwise fun a b => ¬ same a b) : distinctBy same xs = xs :=
  distinctFrom_eq_self (fun _ _ => Bool.false_ne_true) h

section Equality

variable [DecidableEq α]

theorem any_decide_eq_iff {x : α} : kept.any (fun a => decide (a = x)) = true ↔ x ∈ kept := by
  simp

theorem distinct_eq_self (h : xs.Nodup) : distinct xs = xs := by
  refine distinctBy_eq_self (h.imp fun hne => ?_)
  rw [decide_eq_true_eq]
  exact hne

theorem distinct_append (xs ys : List α) : distinct (xs ++ ys) =
    distinct xs ++ distinctFrom (fun a b => decide (a = b)) (distinct xs) ys :=
  distinctFrom_append (fun a b => decide (a = b)) [] xs ys

/-- A last element is kept when it does not occur before. -/
theorem distinct_concat (xs : List α) (x : α) :
    distinct (xs ++ [x]) = if x ∈ distinct xs then distinct xs else distinct xs ++ [x] := by
  rw [distinct_append, distinctFrom]
  by_cases hx : x ∈ distinct xs
  · rw [if_pos hx, if_pos (any_decide_eq_iff.2 hx), distinctFrom, List.append_nil]
  · rw [if_neg hx, if_neg (mt any_decide_eq_iff.1 hx), distinctFrom]

/-- The elements come in the order of their first appearance. -/
theorem pairwise_distinct (xs : List α) :
    (distinct xs).Pairwise fun a b => xs.idxOf a < xs.idxOf b := by
  induction xs using List.reverseRecOn with
  | nil => exact .nil
  | append_singleton xs x ih =>
    have hold : (distinct xs).Pairwise fun a b =>
        (xs ++ [x]).idxOf a < (xs ++ [x]).idxOf b := by
      refine ih.imp_of_mem fun ha hb hlt => ?_
      rw [List.idxOf_append, if_pos (mem_distinct.1 ha), List.idxOf_append,
        if_pos (mem_distinct.1 hb)]
      exact hlt
    rw [distinct_concat]
    by_cases hx : x ∈ distinct xs
    · rw [if_pos hx]
      exact hold
    · rw [if_neg hx]
      refine List.pairwise_append.2 ⟨hold, List.pairwise_singleton _ x, fun a ha b hb => ?_⟩
      cases List.mem_singleton.1 hb
      have ha := mem_distinct.1 ha
      rw [List.idxOf_append, if_pos ha, List.idxOf_append, if_neg (mt mem_distinct.2 hx)]
      exact Nat.lt_of_lt_of_le (List.idxOf_lt_length_of_mem ha) (Nat.le_add_left _ _)

/-- The elements of a list without repetitions come in the order of their positions. -/
theorem pairwise_idxOf (h : xs.Nodup) : xs.Pairwise fun a b => xs.idxOf a < xs.idxOf b := by
  have hdistinct := pairwise_distinct xs
  rwa [distinct_eq_self h] at hdistinct

/-- Elements that occur before add nothing. -/
theorem distinct_append_of_subset (h : ∀ y ∈ ys, y ∈ xs) : distinct (xs ++ ys) = distinct xs := by
  rw [distinct_append, distinctFrom_eq_nil, List.append_nil]
  intro y hy
  exact any_decide_eq_iff.2 (mem_distinct.2 (h y hy))

/-- The elements of a list by their keys, when each key is looked at once. -/
theorem perm_flatMap_filter [BEq α] [LawfulBEq α] {ξ : Type} {key : ξ → α} {keys : List α}
    {xs : List ξ} (hkeys : keys.Nodup) (h : ∀ x ∈ xs, key x ∈ keys) :
    (keys.flatMap fun a => xs.filter (key · == a)).Perm xs := by
  induction keys generalizing xs with
  | nil =>
    have hxs : xs = [] := List.eq_nil_iff_forall_not_mem.2 fun x hx => List.not_mem_nil (h x hx)
    rw [hxs]
    exact List.Perm.refl _
  | cons a keys ih =>
    obtain ⟨ha, hkeys⟩ := List.nodup_cons.1 hkeys
    have hrest : (keys.flatMap fun b => xs.filter (key · == b)) =
        keys.flatMap fun b => (xs.filter fun x => !(key x == a)).filter (key · == b) := by
      rw [List.flatMap_def, List.flatMap_def]
      refine congrArg List.flatten (List.map_congr_left fun b hb => ?_)
      rw [List.filter_filter]
      refine List.filter_congr fun x _ => ?_
      by_cases hx : key x = b
      · have hne : key x ≠ a := fun heq => ha (heq ▸ hx ▸ hb)
        simp [hx, hx ▸ hne]
      · simp [hx]
    rw [List.flatMap_cons, hrest]
    refine ((ih hkeys fun x hx => ?_).append_left _).trans (List.filter_append_perm _ _)
    obtain ⟨hx, hne⟩ := List.mem_filter.1 hx
    refine (List.mem_cons.1 (h x hx)).resolve_left fun heq => ?_
    rw [heq, beq_self_eq_true] at hne
    cases hne

theorem perm_flatMap_distinct [BEq α] [LawfulBEq α] {ξ : Type} (key : ξ → α) (xs : List ξ) :
    ((distinct (xs.map key)).flatMap fun a => xs.filter (key · == a)).Perm xs :=
  perm_flatMap_filter (nodup_distinct _) fun _ hx => mem_distinct.2 (List.mem_map_of_mem hx)

end Equality

end Sharding
