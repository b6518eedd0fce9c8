import Sharding.Merge.Order

/-!
# Sorting keeps all elements

Whatever the test, a list that the adaptive sort answers has the elements of the given one.  The
test need not be an order: then the answer may be in no order, and there may be none, but no element
is lost or doubled (`permutes_adaptive`).

The one method that could double an element is the merge of two halves from both ends.  It compares
how many elements the two ends have taken and gives up when they overlap.
-/

namespace Sharding

namespace Sorting

variable {α : Type} {less : α → α → Bool}

/-- What a sort answers has the elements of the list. -/
def Permutes (sort : List α → Option (List α)) : Prop :=
  ∀ xs ys, sort xs = some ys → ys.Perm xs

/-! ## Short lists -/

theorem sortTwo_perm (less : α → α → Bool) (a b : α) :
    [(sortTwo less a b).1, (sortTwo less a b).2].Perm [a, b] := by
  unfold sortTwo
  split
  · exact .swap a b []
  · exact .refl _

theorem sortFour_perm (w x y z : α) : (sortFour less w x y z).Perm [w, x, y, z] := by
  have hleft := sortTwo_perm less w x
  have hright := sortTwo_perm less y z
  unfold sortFour
  generalize sortTwo less w x = front at hleft ⊢
  generalize sortTwo less y z = back at hright ⊢
  obtain ⟨a, b⟩ := front
  obtain ⟨c, d⟩ := back
  -- The two elements in the middle may stand either way.
  have hinner : ∀ first left right last : α, [first, left, right, last].Perm [a, b, c, d] →
      [first, (sortTwo less left right).1, (sortTwo less left right).2, last].Perm [w, x, y, z] :=
    fun first left right last hperm =>
      (((sortTwo_perm less left right).append_right [last]).cons first).trans
        (hperm.trans (hleft.append hright))
  have hlast : [c, d, b].Perm [b, c, d] := @List.perm_middle _ b [c, d] []
  have hfirst : [c, a, b].Perm [a, b, c] := (@List.perm_middle _ c [a, b] []).symm
  dsimp only
  cases less c a <;> cases less d b
  · exact hinner a b c d (.refl _)
  · exact hinner a c d b (hlast.cons a)
  · exact hinner c a b d (hfirst.append_right [d])
  · exact hinner c a d b ((List.Perm.swap a c [d, b]).trans (hlast.cons a))

theorem sortHalf_perm (long : Bool) (xs : List α) : (sortHalf less long xs).Perm xs := by
  unfold sortHalf
  split
  · exact (insertAll_perm less _ _).trans ((sortFour_perm _ _ _ _).append_right _)
  · exact insertion_perm less xs

/-- What is taken from the fronts of two lists, and what they have left. -/
theorem takeFront_perm (less : α → α → Bool) (n : Nat) (left right : List α) :
    ∃ fromLeft fromRight, left = fromLeft ++ (takeFront less n left right).2.1 ∧
      right = fromRight ++ (takeFront less n left right).2.2 ∧
      (takeFront less n left right).1.Perm (fromLeft ++ fromRight) := by
  induction n generalizing left right with
  | zero => exact ⟨[], [], rfl, rfl, .nil⟩
  | succ n ih =>
    cases left with
    | nil => exact ⟨[], [], rfl, rfl, .nil⟩
    | cons a left =>
      cases right with
      | nil => exact ⟨[], [], rfl, rfl, .nil⟩
      | cons b right =>
        rw [takeFront]
        split
        · obtain ⟨fromLeft, fromRight, hleft, hright, hperm⟩ := ih (a :: left) right
          refine ⟨fromLeft, b :: fromRight, hleft, congrArg (b :: ·) hright, ?_⟩
          exact (hperm.cons b).trans List.perm_middle.symm
        · obtain ⟨fromLeft, fromRight, hleft, hright, hperm⟩ := ih left (b :: right)
          exact ⟨a :: fromLeft, fromRight, congrArg (a :: ·) hleft, hright, hperm.cons a⟩

/-- A list whose ends have been taken without overlapping has its middle left over. -/
theorem append_take_append {xs front rest back init : List α} (hfront : xs = front ++ rest)
    (hback : xs.reverse = back ++ init) (h : xs.length ≤ rest.length + init.length) :
    xs = front ++ rest.take (rest.length + init.length - xs.length) ++ back.reverse := by
  have hlength : xs.length = front.length + rest.length := by rw [hfront, List.length_append]
  have hends : xs = init.reverse ++ back.reverse := by
    rw [← List.reverse_append, ← hback, List.reverse_reverse]
  have hlength' : xs.length = init.length + back.length := by
    rw [hends, List.length_append, List.length_reverse, List.length_reverse]
  obtain ⟨k, hk⟩ : ∃ k, rest.length + init.length - xs.length = k := ⟨_, rfl⟩
  have hcut : (front ++ rest.take k) ++ rest.drop k = init.reverse ++ back.reverse := by
    rw [List.append_assoc, List.take_append_drop, ← hfront, hends]
  have hdrop : rest.drop k = back.reverse :=
    List.append_inj_right' hcut (by rw [List.length_drop, List.length_reverse]; omega)
  rw [hk, ← hdrop, List.append_assoc, List.take_append_drop, hfront]

theorem mergeHalves_perm {left right ys : List α} (h : mergeHalves less left right = some ys) :
    ys.Perm (left ++ right) := by
  obtain ⟨fromLeft, fromRight, hleft, hright, hfront⟩ :=
    takeFront_perm less left.length left right
  obtain ⟨fromRight', fromLeft', hright', hleft', hback⟩ :=
    takeFront_perm (fun b a => less a b) left.length right.reverse left.reverse
  unfold mergeHalves at h
  generalize takeFront less left.length left right = front at hleft hright hfront h
  generalize takeFront (fun b a => less a b) left.length right.reverse left.reverse = back
    at hleft' hright' hback h
  obtain ⟨front, left₁, right₁⟩ := front
  obtain ⟨back, right₂, left₂⟩ := back
  dsimp only at hleft hright hfront hleft' hright' hback h
  split at h
  next => cases h
  next hends =>
    cases h
    simp only [Bool.or_eq_true, decide_eq_true_eq, not_or, Nat.not_lt] at hends
    have hleft := append_take_append hleft hleft' hends.1
    have hright := append_take_append hright hright' hends.2
    classical
    rw [List.perm_iff_count]
    intro a
    have hleft := congrArg (List.count a) hleft
    have hright := congrArg (List.count a) hright
    have hfront := hfront.count_eq a
    have hback := hback.count_eq a
    simp only [List.count_append, List.count_reverse] at hleft hright hfront hback ⊢
    omega

theorem permutes_halves : Permutes (halves less) := by
  intro xs ys h
  have hperm := mergeHalves_perm h
  refine hperm.trans (((sortHalf_perm _ _).append (sortHalf_perm _ _)).trans ?_)
  rw [List.take_append_drop]

/-! ## Partitions -/

theorem permutes_quick {other : List α → Option (List α)} (hother : Permutes other) (limit : Nat)
    (bound : Option α) : Permutes (quick less other limit bound) := by
  induction limit generalizing bound with
  | zero =>
    intro xs ys h
    unfold quick at h
    split at h
    · exact permutes_halves _ _ h
    · exact hother _ _ h
  | succ limit ih =>
    intro xs ys h
    unfold quick at h
    split at h
    · exact permutes_halves _ _ h
    · cases hpivot : pivot? less xs with
      | none =>
        rw [hpivot] at h
        exact hother _ _ h
      | some pivot =>
        simp only [hpivot, List.partition_eq_filter_filter] at h
        split at h
        · obtain ⟨after, hafter, h⟩ := Option.bind_eq_some_iff.1 h
          cases h
          exact ((ih none _ _ hafter).append_left _).trans (List.filter_append_perm _ _)
        · obtain ⟨rest, hrest, h⟩ := Option.bind_eq_some_iff.1 h
          obtain ⟨before, hbefore, h⟩ := Option.bind_eq_some_iff.1 h
          cases h
          exact ((ih _ _ _ hbefore).append (ih _ _ _ hrest)).trans (List.filter_append_perm _ _)

/-! ## Runs -/

theorem naturalRun_perm (less : α → α → Bool) (x : α) (xs : List α) :
    (naturalRun less x xs).1.items.Perm (x :: xs.take (naturalRun less x xs).2) := by
  unfold naturalRun
  dsimp only
  split
  · exact List.reverse_perm _
  · exact .refl _

section Policy

variable {policy : RunPolicy α}

theorem arrange_perm (hsort : Permutes policy.sort) {run : Run α} {ys : List α}
    (h : run.arrange policy = some ys) : ys.Perm run.items := by
  unfold Run.arrange at h
  split at h
  · cases h
    exact .refl _
  · exact hsort _ _ h

theorem firstRun_perm (hsort : Permutes policy.sort) {x : α} {xs : List α} {run : Run α}
    {more : Nat} (h : firstRun less policy x xs = some (run, more)) :
    run.items.Perm (x :: xs.take more) := by
  have hnatural := naturalRun_perm less x xs
  unfold firstRun at h
  dsimp only at h
  split at h
  · cases h
    exact hnatural
  · split at h
    · obtain ⟨ys, hys, h⟩ := Option.bind_eq_some_iff.1 h
      cases h
      exact arrange_perm hsort hys
    · cases h
      exact .refl _

/-- The runs of a list have its elements. -/
theorem runs_perm (hsort : Permutes policy.sort) {xs : List α} {found : List (Run α)}
    (h : runs less policy xs = some found) : (found.flatMap (·.items)).Perm xs := by
  induction hn : xs.length using Nat.strongRecOn generalizing xs found with
  | ind n ih =>
    cases xs with
    | nil =>
      rw [runs] at h
      cases h
      exact .nil
    | cons x rest =>
      rw [runs] at h
      obtain ⟨⟨run, more⟩, hfirst, h⟩ := Option.bind_eq_some_iff.1 h
      obtain ⟨later, hlater, h⟩ := Option.bind_eq_some_iff.1 h
      cases h
      have hshorter : (rest.drop more).length < n := by
        rw [List.length_drop, ← hn, List.length_cons]
        omega
      have hperm := (firstRun_perm hsort hfirst).append (ih _ hshorter hlater rfl)
      rwa [List.cons_append, List.take_append_drop] at hperm

theorem merge_perm (xs ys : List α) : (merge less xs ys).Perm (xs ++ ys) := by
  unfold merge
  split
  · exact List.merge_perm_append _
  · refine (List.reverse_perm _).trans ((List.merge_perm_append _).trans ?_)
    rw [← List.reverse_append]
    exact List.reverse_perm _

theorem join_perm (hsort : Permutes policy.sort) {a b joined : Run α}
    (h : a.join less policy b = some joined) : joined.items.Perm (a.items ++ b.items) := by
  unfold Run.join at h
  split at h
  · obtain ⟨xs, hxs, h⟩ := Option.bind_eq_some_iff.1 h
    obtain ⟨ys, hys, h⟩ := Option.bind_eq_some_iff.1 h
    cases h
    exact (merge_perm xs ys).trans ((arrange_perm hsort hxs).append (arrange_perm hsort hys))
  · cases h
    exact .refl _

/-- The elements of a stack of runs, which is given in reverse. -/
def stacked (stack : List (Run α × Nat)) : List α :=
  stack.reverse.flatMap (·.1.items)

theorem stacked_cons (run : Run α) (depth : Nat) (stack : List (Run α × Nat)) :
    stacked ((run, depth) :: stack) = stacked stack ++ run.items := by
  simp [stacked]

theorem settle_perm (hsort : Permutes policy.sort) {depth : Nat} {stack left : List (Run α × Nat)}
    {run settled : Run α} (h : settle less policy depth stack run = some (left, settled)) :
    (stacked left ++ settled.items).Perm (stacked stack ++ run.items) := by
  induction stack generalizing run with
  | nil =>
    cases h
    exact .refl _
  | cons entry stack ih =>
    obtain ⟨earlier, d⟩ := entry
    rw [settle] at h
    split at h
    · obtain ⟨joined, hjoined, h⟩ := Option.bind_eq_some_iff.1 h
      rw [stacked_cons, List.append_assoc]
      exact (ih h).trans ((join_perm hsort hjoined).append_left _)
    · cases h
      exact .refl _

/-- At depth zero a run is joined to all runs before it. -/
theorem settle_zero {stack left : List (Run α × Nat)} {run settled : Run α}
    (h : settle less policy 0 stack run = some (left, settled)) : left = [] := by
  induction stack generalizing run with
  | nil =>
    cases h
    rfl
  | cons entry stack ih =>
    rw [settle, if_pos (Nat.zero_le _)] at h
    obtain ⟨joined, -, h⟩ := Option.bind_eq_some_iff.1 h
    exact ih h

theorem mergeRuns_perm (hsort : Permutes policy.sort) {total start : Nat}
    {stack : List (Run α × Nat)} {run merged : Run α} {later : List (Run α)}
    (h : mergeRuns less policy total stack start run later = some merged) :
    merged.items.Perm (stacked stack ++ run.items ++ later.flatMap (·.items)) := by
  induction later generalizing stack start run with
  | nil =>
    rw [mergeRuns] at h
    obtain ⟨⟨left, settled⟩, hsettle, h⟩ := Option.bind_eq_some_iff.1 h
    cases h
    have hperm := settle_perm hsort hsettle
    rw [settle_zero hsettle] at hperm
    rw [List.flatMap_nil, List.append_nil]
    exact hperm
  | cons next later ih =>
    rw [mergeRuns] at h
    obtain ⟨⟨left, settled⟩, hsettle, h⟩ := Option.bind_eq_some_iff.1 h
    have hperm := ih h
    rw [stacked_cons] at hperm
    rw [List.flatMap_cons, ← List.append_assoc]
    exact hperm.trans (((settle_perm hsort hsettle).append_right _).append_right _)

theorem permutes_byRuns (hsort : Permutes policy.sort) : Permutes (byRuns less policy) := by
  intro xs ys h
  unfold byRuns at h
  obtain ⟨found, hfound, h⟩ := Option.bind_eq_some_iff.1 h
  have hruns := runs_perm hsort hfound
  cases found with
  | nil =>
    cases h
    exact hruns
  | cons first later =>
    obtain ⟨merged, hmerged, h⟩ := Option.bind_eq_some_iff.1 h
    exact (arrange_perm hsort h).trans ((mergeRuns_perm hsort hmerged).trans hruns)

end Policy

/-! ## The adaptive sort -/

theorem permutes_bySortedRuns : Permutes (bySortedRuns less) := fun _ _ h =>
  permutes_byRuns permutes_halves _ _ h

theorem permutes_byPartition : Permutes (byPartition less) := fun _ _ h =>
  permutes_quick permutes_bySortedRuns _ _ _ _ h

theorem permutes_byGrowingRuns : Permutes (byGrowingRuns less) := fun _ _ h =>
  permutes_byRuns permutes_byPartition _ _ h

theorem permutes_adaptive : Permutes (adaptive less) := by
  intro xs ys h
  unfold adaptive at h
  split at h
  · cases h
    exact insertion_perm less xs
  · split at h
    · exact permutes_bySortedRuns _ _ h
    · exact permutes_byGrowingRuns _ _ h

end Sorting

/-- Sorted rows are the given rows, whatever the keys. -/
theorem sortRows_perm {keys : List SortKey} {rows sorted : List Row}
    (h : sortRows keys rows = some sorted) : sorted.Perm rows :=
  Sorting.permutes_adaptive _ _ h

end Sharding
