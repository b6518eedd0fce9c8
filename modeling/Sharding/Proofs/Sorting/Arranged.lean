import Mathlib.Data.List.Sort

/-!
# Stable arrangements

A test `less` that is an order on some elements gives each of them a rank, and comes down to
comparing ranks there.  `Arranged rank xs ys` says that `ys` is the list `xs` put in the order of
the ranks, with elements of one rank in the order in which `xs` has them.  There is only one such
list (`Arranged.unique`), so two stable sorts agree as soon as both are known to arrange.

The elements of one rank form a class, and `SameClasses` compares two lists class by class.  It is
the half of `Arranged` that a step of a sort keeps while the list is not in order yet.
-/

namespace Sharding.Sorting

variable {α : Type} {rank : α → Int} {xs ys zs : List α}

/-- On the elements with the property `S`, the test `less` compares ranks. -/
structure Ranks (S : α → Prop) (less : α → α → Bool) (rank : α → Int) : Prop where
  less_iff : ∀ {a b}, S a → S b → (less a b = true ↔ rank a < rank b)

/-- Two lists have the same elements of each rank, in the same order. -/
def SameClasses (rank : α → Int) (xs ys : List α) : Prop :=
  ∀ r, ys.filter (rank · = r) = xs.filter (rank · = r)

/-- No element stands behind one of a higher rank. -/
def Ascending (rank : α → Int) (xs : List α) : Prop :=
  xs.Pairwise fun a b => rank a ≤ rank b

/-- The list `ys` is `xs` in the order of the ranks, and keeps the order of equal ranks. -/
structure Arranged (rank : α → Int) (xs ys : List α) : Prop where
  ascending : Ascending rank ys
  classes : SameClasses rank xs ys

/-! ## Classes -/

namespace SameClasses

theorem refl (xs : List α) : SameClasses rank xs xs :=
  fun _ => rfl

theorem symm (h : SameClasses rank xs ys) : SameClasses rank ys xs :=
  fun r => (h r).symm

theorem trans (h₁ : SameClasses rank xs ys) (h₂ : SameClasses rank ys zs) :
    SameClasses rank xs zs :=
  fun r => (h₂ r).trans (h₁ r)

theorem append {xs' ys' : List α} (h₁ : SameClasses rank xs ys) (h₂ : SameClasses rank xs' ys') :
    SameClasses rank (xs ++ xs') (ys ++ ys') := by
  intro r
  rw [List.filter_append, List.filter_append, h₁ r, h₂ r]

theorem cons (x : α) (h : SameClasses rank xs ys) : SameClasses rank (x :: xs) (x :: ys) :=
  append (refl [x]) h

theorem reverse (h : SameClasses rank xs ys) : SameClasses rank xs.reverse ys.reverse := by
  intro r
  rw [List.filter_reverse, List.filter_reverse, h r]

/-- Neighbours of different ranks may change places. -/
theorem swap {x y : α} (h : rank x ≠ rank y) (xs : List α) :
    SameClasses rank (x :: y :: xs) (y :: x :: xs) := by
  intro r
  by_cases hx : rank x = r
  · have hy : rank y ≠ r := fun hy => h (hx.trans hy.symm)
    simp [hx, hy]
  · simp [List.filter_cons, hx]

/-- An element may move in front of elements of other ranks. -/
theorem middle {x : α} (h : ∀ y ∈ xs, rank y ≠ rank x) (ys : List α) :
    SameClasses rank (xs ++ x :: ys) (x :: (xs ++ ys)) := by
  induction xs with
  | nil => exact refl _
  | cons y xs ih =>
    have hy : rank y ≠ rank x := h y List.mem_cons_self
    have hxs := ih fun z hz => h z (List.mem_cons_of_mem _ hz)
    exact (hxs.cons y).trans (swap hy (xs ++ ys))

/-- Two blocks may change places when no rank occurs in both. -/
theorem append_comm (h : ∀ x ∈ xs, ∀ y ∈ ys, rank x ≠ rank y) :
    SameClasses rank (xs ++ ys) (ys ++ xs) := by
  induction ys with
  | nil => simpa using refl xs
  | cons y ys ih =>
    have hy : ∀ x ∈ xs, rank x ≠ rank y := fun x hx => h x hx y List.mem_cons_self
    have hys := ih fun x hx z hz => h x hx z (List.mem_cons_of_mem _ hz)
    exact (middle hy ys).trans (hys.cons y)

/-- A test that only looks at the rank splits a list without touching the classes. -/
theorem filter_append_filter {p : α → Bool}
    (h : ∀ x ∈ xs, ∀ y ∈ xs, rank x = rank y → p x = p y) :
    SameClasses rank xs (xs.filter p ++ xs.filter (!p ·)) := by
  induction xs with
  | nil => exact refl _
  | cons x xs ih =>
    have hxs := ih fun y hy z hz =>
      h y (List.mem_cons_of_mem _ hy) z (List.mem_cons_of_mem _ hz)
    cases hx : p x with
    | true => simpa [List.filter_cons, hx] using hxs.cons x
    | false =>
      have hne : ∀ y ∈ xs.filter p, rank y ≠ rank x := by
        intro y hy hyx
        obtain ⟨hm, hpy⟩ := List.mem_filter.1 hy
        rw [h y (List.mem_cons_of_mem _ hm) x List.mem_cons_self hyx, hx] at hpy
        exact Bool.false_ne_true hpy
      have hmove := (hxs.cons x).trans (middle hne (xs.filter (!p ·))).symm
      simpa [List.filter_cons, hx] using hmove

open Classical in
theorem perm (h : SameClasses rank xs ys) : ys.Perm xs := by
  rw [List.perm_iff_count]
  intro a
  have ha : decide (rank a = rank a) = true := by simp
  rw [← List.count_filter (p := fun x => rank x = rank a) ha, h (rank a),
    List.count_filter (p := fun x => rank x = rank a) ha]

theorem mem_iff (h : SameClasses rank xs ys) {a : α} : a ∈ ys ↔ a ∈ xs :=
  h.perm.mem_iff

theorem forall_mem (h : SameClasses rank xs ys) {S : α → Prop} (hS : ∀ x ∈ xs, S x) :
    ∀ x ∈ ys, S x :=
  fun x hx => hS x (h.mem_iff.1 hx)

theorem length_eq (h : SameClasses rank xs ys) : ys.length = xs.length :=
  h.perm.length_eq

end SameClasses

/-! ## Ascending lists -/

theorem Ascending.append (hxs : Ascending rank xs) (hys : Ascending rank ys)
    (h : ∀ x ∈ xs, ∀ y ∈ ys, rank x ≤ rank y) : Ascending rank (xs ++ ys) :=
  List.pairwise_append.2 ⟨hxs, hys, h⟩

theorem Ascending.le_of_mem {x y : α} (h : Ascending rank (x :: xs)) (hy : y ∈ xs) :
    rank x ≤ rank y :=
  (List.pairwise_cons.1 h).1 y hy

/-- In two ascending lists with the same classes the first elements have one rank. -/
theorem rank_head_eq {x y : α} (hx : Ascending rank (x :: xs)) (hy : Ascending rank (y :: ys))
    (h : SameClasses rank (x :: xs) (y :: ys)) : rank x = rank y := by
  have hyx : y ∈ x :: xs := h.mem_iff.1 List.mem_cons_self
  have hxy : x ∈ y :: ys := h.mem_iff.2 List.mem_cons_self
  have h1 : rank x ≤ rank y := by
    rcases List.mem_cons.1 hyx with rfl | hm
    · exact Int.le_refl _
    · exact hx.le_of_mem hm
  have h2 : rank y ≤ rank x := by
    rcases List.mem_cons.1 hxy with rfl | hm
    · exact Int.le_refl _
    · exact hy.le_of_mem hm
  exact Int.le_antisymm h1 h2

/-- The classes and the order of the ranks determine a list. -/
theorem Ascending.eq_of_sameClasses (hxs : Ascending rank xs) (hys : Ascending rank ys)
    (h : SameClasses rank xs ys) : ys = xs := by
  induction xs generalizing ys with
  | nil => exact List.perm_nil.1 h.perm
  | cons x xs ih =>
    cases ys with
    | nil => exact absurd h.perm.symm.eq_nil (List.cons_ne_nil _ _)
    | cons y ys =>
      have hr := rank_head_eq hxs hys h
      have hhead := h (rank x)
      simp only [List.filter_cons, hr.symm, decide_true, if_true, List.cons.injEq] at hhead
      obtain ⟨rfl, htail⟩ := hhead
      have hclasses : SameClasses rank xs ys := by
        intro r
        by_cases hyr : rank y = r
        · subst hyr
          exact htail
        · have := h r
          simpa [List.filter_cons, hyr] using this
      rw [ih (List.pairwise_cons.1 hxs).2 (List.pairwise_cons.1 hys).2 hclasses]

/-! ## Arrangements -/

namespace Arranged

theorem perm (h : Arranged rank xs ys) : ys.Perm xs :=
  h.classes.perm

theorem of_classes (h₁ : SameClasses rank xs ys) (h₂ : Arranged rank ys zs) :
    Arranged rank xs zs :=
  ⟨h₂.ascending, h₁.trans h₂.classes⟩

/-- A list has only one stable arrangement. -/
theorem unique (h₁ : Arranged rank xs ys) (h₂ : Arranged rank xs zs) : ys = zs :=
  h₂.ascending.eq_of_sameClasses h₁.ascending (h₂.classes.symm.trans h₁.classes)

/-- Two arranged blocks stand one behind the other when no rank of the second is lower. -/
theorem append {xs' ys' : List α} (h₁ : Arranged rank xs ys) (h₂ : Arranged rank xs' ys')
    (h : ∀ x ∈ xs, ∀ y ∈ xs', rank x ≤ rank y) : Arranged rank (xs ++ xs') (ys ++ ys') where
  ascending := h₁.ascending.append h₂.ascending fun x hx y hy =>
    h x (h₁.classes.mem_iff.1 hx) y (h₂.classes.mem_iff.1 hy)
  classes := h₁.classes.append h₂.classes

/-- The first element of the lowest rank comes first. -/
theorem cons_of_lowest {before after : List α} {x : α}
    (hbefore : ∀ y ∈ before, rank x < rank y) (hafter : ∀ y ∈ after, rank x ≤ rank y)
    (h : Arranged rank (before ++ after) ys) : Arranged rank (before ++ x :: after) (x :: ys) where
  ascending := by
    refine List.pairwise_cons.2 ⟨fun y hy => ?_, h.ascending⟩
    rcases List.mem_append.1 (h.classes.mem_iff.1 hy) with hm | hm
    · exact Int.le_of_lt (hbefore y hm)
    · exact hafter y hm
  classes := by
    have hne : ∀ y ∈ before, rank y ≠ rank x := fun y hy => Int.ne_of_gt (hbefore y hy)
    exact (SameClasses.middle hne after).trans (h.classes.cons x)

/-- The sort of the library arranges. -/
theorem mergeSort (xs : List α) :
    Arranged rank xs (xs.mergeSort fun a b => rank a ≤ rank b) := by
  have htrans : ∀ a b c : α, decide (rank a ≤ rank b) = true → decide (rank b ≤ rank c) = true →
      decide (rank a ≤ rank c) = true := by
    intro a b c hab hbc
    simp only [decide_eq_true_eq] at hab hbc ⊢
    omega
  have htotal : ∀ a b : α, (decide (rank a ≤ rank b) || decide (rank b ≤ rank a)) = true := by
    intro a b
    simp only [Bool.or_eq_true, decide_eq_true_eq]
    omega
  constructor
  · have hsorted := List.pairwise_mergeSort htrans htotal xs
    exact hsorted.imp fun h => by simpa using h
  · intro r
    -- a class is a sorted sublist of the list, so it is one of the sorted list as well
    have hclass : (xs.filter (rank · = r)).Pairwise fun a b => decide (rank a ≤ rank b) = true := by
      refine List.pairwise_of_forall_mem_list fun a ha b hb => ?_
      have har : rank a = r := by simpa using (List.mem_filter.1 ha).2
      have hbr : rank b = r := by simpa using (List.mem_filter.1 hb).2
      simp [har, hbr]
    have hsub := List.sublist_mergeSort htrans htotal hclass List.filter_sublist
    have hsub' := hsub.filter (rank · = r)
    rw [List.filter_filter] at hsub'
    simp only [Bool.and_self] at hsub'
    have hlen := ((List.mergeSort_perm xs fun a b => decide (rank a ≤ rank b)).filter
      (rank · = r)).length_eq
    exact (hsub'.eq_of_length hlen.symm).symm

end Arranged

end Sharding.Sorting
