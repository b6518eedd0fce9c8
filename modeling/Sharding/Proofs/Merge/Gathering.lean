import Sharding.Proofs.Merge.HiddenOrder
import Sharding.Proofs.Sorting.Permuted

/-!
# What a merge of groups answers

`gather_eq` says what reading rows into groups gives if every group can be folded.  When the reading
succeeds, every group can be (`foldable_of_gather`): a row that cannot be folded into its group ends
the loop.  So a merge of groups that succeeds answers one row for each key that was read, the
finished row of the key's group (`mergeGroups_answers`).  Nothing is said of the order of these
rows: values that no order fits do not keep the sort from answering.
-/

namespace Sharding

variable {plan : GroupPlan} {rows : List Row} {row : Row} {key : List UInt8}

/-- A row that is read into the groups is folded into the group of its key. -/
theorem exists_foldRow {folds : List ColumnFold} {acc : Row} {groups groups' : List Group}
    (hnodup : (groups.map Prod.fst).Nodup) (hgroup : (key, acc) ∈ groups)
    (h : addToGroups folds key row groups = .ok groups') :
    ∃ out, foldRow folds 0 acc row = .ok out := by
  induction groups generalizing groups' with
  | nil => cases hgroup
  | cons group groups ih =>
    obtain ⟨k, a⟩ := group
    rw [List.map_cons, List.nodup_cons] at hnodup
    rw [addToGroups] at h
    by_cases hk : k = key
    · subst hk
      rw [if_pos rfl] at h
      rcases List.mem_cons.1 hgroup with hfirst | hrest
      · cases hfirst
        obtain ⟨out, hout, -⟩ := exists_of_bind_eq_ok h
        exact ⟨out, hout⟩
      · exact absurd (List.mem_map_of_mem hrest) hnodup.1
    · rw [if_neg hk] at h
      obtain ⟨rest, hrest, -⟩ := exists_of_bind_eq_ok h
      refine ih hnodup.2 ((List.mem_cons.1 hgroup).resolve_left fun heq => hk ?_) hrest
      exact (congrArg Prod.fst heq).symm

/-- The groups with a row more can be folded, if the row can be read into them. -/
theorem Foldable.concat {groups : List Group} (h : Foldable plan rows)
    (hadd : addToGroups plan.folds (groupKey plan.keyColumns row) row (groupsOf plan rows) =
      .ok groups) : Foldable plan (rows ++ [row]) := by
  intro key
  rw [rowsUnder_append]
  by_cases hkey : key = groupKey plan.keyColumns row
  · subst hkey
    rw [rowsUnder_self]
    cases hunder : rowsUnder plan rows (groupKey plan.keyColumns row) with
    | nil => exact ⟨row, rfl⟩
    | cons first rest =>
      obtain ⟨acc, hacc⟩ := h (groupKey plan.keyColumns row)
      have hmem : groupKey plan.keyColumns row ∈ rows.map (groupKey plan.keyColumns) := by
        by_contra hnew
        rw [rowsUnder_eq_nil_iff.2 hnew] at hunder
        cases hunder
      have hgroup : (groupKey plan.keyColumns row, acc) ∈ groupsOf plan rows := by
        rw [← groupAt_eq hacc]
        exact List.mem_map_of_mem (mem_distinct.2 hmem)
      have hnodup : ((groupsOf plan rows).map Prod.fst).Nodup := by
        rw [groupsOf, List.map_map]
        exact (List.map_id _).symm ▸ nodup_distinct _
      obtain ⟨out, hout⟩ := exists_foldRow hnodup hgroup hadd
      rw [hunder] at hacc
      refine ⟨out, ?_⟩
      rw [foldGroup_concat, hacc]
      exact hout
  · rw [rowsUnder_other hkey, List.append_nil]
    exact h key

/-- Rows that are read into their groups without an error can be folded. -/
theorem foldable_of_gather {seen : List Row} {buffered : Nat} {groups : List Group}
    (hseen : Foldable plan seen)
    (h : gather plan buffered (groupsOf plan seen) (rows.map .ok) = .ok groups) :
    Foldable plan (seen ++ rows) ∧ groups = groupsOf plan (seen ++ rows) := by
  induction rows generalizing seen buffered with
  | nil =>
    cases h
    rw [List.append_nil]
    exact ⟨hseen, rfl⟩
  | cons row rows ih =>
    have hroom : ¬ plan.maxRows < buffered + 1 := fun hfull => by
      rw [List.map_cons, gather, if_pos hfull] at h
      cases h
    rw [List.map_cons, gather, if_neg hroom] at h
    obtain ⟨groups', hadd, h⟩ := exists_of_bind_eq_ok h
    have hadd := eq_ok_of_mapError hadd
    have hfoldable := hseen.concat hadd
    obtain rfl : groupsOf plan (seen ++ [row]) = groups' :=
      Except.ok.inj ((addToGroups_eq hfoldable).symm.trans hadd)
    rw [List.append_cons]
    exact ih hfoldable h

/-- The row that answers a group key. -/
def GroupPlan.answerAt (plan : GroupPlan) (rows : List Row) (key : List UInt8) : Row :=
  cutTo plan.width (plan.rowOf (groupAt plan rows key))

/-- A merge of groups that succeeds has folded every group, and answers one row for each key. -/
theorem mergeGroups_answers {W : Type} {closer : Closer W} {columns : List String} {w : W}
    {partials : List (List Row)} {sources : List Source} {out : Source}
    (hsources : List.Forall₂ Source.Delivers partials sources)
    (h : (mergeGroups closer columns plan sources w).1 = .ok out) :
    Foldable plan partials.flatten ∧
      ∃ rows, out = .ofRows (cutTo plan.width columns) rows ∧
        rows.Perm ((distinct (partials.flatten.map (groupKey plan.keyColumns))).map
          (plan.answerAt partials.flatten)) := by
  rw [mergeGroups, outcomes_flatten hsources] at h
  cases hgather : gather plan 0 [] (partials.flatten.map .ok) with
  | error e =>
    rw [hgather] at h
    cases h
  | ok groups =>
    obtain ⟨hfoldable, rfl⟩ :=
      @foldable_of_gather plan _ [] _ _ (fun key => ⟨[], rfl⟩) hgather
    rw [List.nil_append] at hgather hfoldable
    rw [hgather] at h
    generalize Source.closeAll closer sources w = close at h
    obtain ⟨closed, left, w'⟩ := close
    cases closed with
    | error e => cases h
    | ok _ =>
      dsimp only at h
      rw [GroupPlan.finish] at h
      cases hsorted : sortRows plan.outputKeys
          ((groupsOf plan partials.flatten).map fun g => finishRow plan.folds g.2) with
      | none =>
        rw [hsorted] at h
        cases h
      | some sorted =>
        rw [hsorted] at h
        cases h
        refine ⟨hfoldable, sorted.map (cutTo plan.width), rfl, ?_⟩
        have hperm := (sortRows_perm hsorted).map (cutTo plan.width)
        rw [groupsOf, List.map_map, List.map_map] at hperm
        exact hperm

end Sharding
