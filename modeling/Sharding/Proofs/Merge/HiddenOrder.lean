import Sharding.Merge.Result
import Sharding.Proofs.Distinct
import Sharding.Proofs.Merge.Aggregation
import Sharding.Proofs.Merge.Planning

/-!
# Groups in the order of hidden columns

A sort item that no projection carries is selected as a derived column, and the merge sorts by that
column.  The column does not add up: derived columns other than the parts of averages keep the value
of the group's first row.

* `gather_eq`: the loop over the rows of all shards makes one group for each key (`groupsOf`), with
  the rows of the key folded into one (`foldGroup`).
* `hidden_order_by_first_rows`: the groups come out in the order of what the first row of each has
  in the hidden column.  That is the order of the totals if no group is spread over several rows.
* `hidden_order_not_by_total`: otherwise it need not be.
-/

namespace Sharding

variable {plan : GroupPlan} {folds : List ColumnFold} {rows : List Row} {key : List UInt8}

/-! ## Folding the rows of a group -/

/-- The rows of a group, folded into one. -/
def foldGroup (folds : List ColumnFold) : List Row → Except MergeCause Row
  | [] => .ok []
  | first :: rest => rest.foldlM (foldRow folds 0) first

theorem foldGroup_concat {first : Row} (rest : List Row) (row : Row) :
    foldGroup folds (first :: rest ++ [row]) =
      foldGroup folds (first :: rest) >>= fun acc => foldRow folds 0 acc row := by
  rw [List.cons_append, foldGroup, List.foldlM_append]
  simp only [List.foldlM_cons, List.foldlM_nil, bind_pure]
  rfl

/-- Where a group can be folded, so can its first rows. -/
theorem exists_of_foldGroup_append {xs ys : List Row} {out : Row}
    (h : foldGroup folds (xs ++ ys) = .ok out) : ∃ acc, foldGroup folds xs = .ok acc := by
  cases xs with
  | nil => exact ⟨[], rfl⟩
  | cons first xs =>
    rw [List.cons_append, foldGroup, List.foldlM_append] at h
    obtain ⟨acc, hacc, -⟩ := exists_of_bind_eq_ok h
    exact ⟨acc, hacc⟩

/-- A column without a fold of its own keeps its value. -/
theorem getElem?_foldRow {column j : Nat} {acc row out : Row}
    (hfirst : folds[column + j]?.getD .first = .first)
    (h : foldRow folds column acc row = .ok out) : out[j]? = acc[j]? := by
  induction acc generalizing row out column j with
  | nil =>
    cases h
    rfl
  | cons d acc ih =>
    cases row with
    | nil =>
      cases h
      rfl
    | cons value row =>
      rw [foldRow] at h
      obtain ⟨e, he, h⟩ := exists_of_bind_eq_ok h
      obtain ⟨rest, hrest, h⟩ := exists_of_bind_eq_ok h
      cases h
      cases j with
      | zero =>
        rw [Nat.add_zero] at hfirst
        rw [hfirst] at he
        cases he
        rfl
      | succ j =>
        rw [← Nat.add_assoc, Nat.add_right_comm] at hfirst
        exact ih hfirst hrest

/-- In such a column a group has what its first row has. -/
theorem getElem?_foldGroup {j : Nat} {first out : Row} {rest : List Row}
    (hfirst : folds[j]?.getD .first = .first) (h : foldGroup folds (first :: rest) = .ok out) :
    out[j]? = first[j]? := by
  induction rest using List.reverseRecOn generalizing out with
  | nil =>
    cases h
    rfl
  | append_singleton rest row ih =>
    rw [← List.cons_append, foldGroup_concat] at h
    obtain ⟨acc, hacc, h⟩ := exists_of_bind_eq_ok h
    rw [← ih hacc]
    exact getElem?_foldRow (by rwa [Nat.zero_add]) h

/-- Finishing a row changes averages only. -/
theorem getElem?_finishRow {j : Nat} (row : Row) (h : ∀ n s, folds[j]? ≠ some (.average n s)) :
    (finishRow folds row)[j]? = row[j]? := by
  induction folds using List.reverseRecOn with
  | nil => rfl
  | append_singleton folds f ih =>
    have hinit : ∀ n s, folds[j]? ≠ some (.average n s) := fun n s hj =>
      h n s (by rw [List.getElem?_append_left (List.getElem?_eq_some_iff.1 hj).1, hj])
    rw [finishRow_append]
    cases f with
    | average n s =>
      have hne : folds.length ≠ j := fun heq => h n s (heq ▸ List.getElem?_concat_length)
      exact (List.getElem?_set_ne hne).trans (ih hinit)
    | _ => exact ih hinit

/-! ## The groups of some rows -/

/-- The rows with a group key. -/
def rowsUnder (plan : GroupPlan) (rows : List Row) (key : List UInt8) : List Row :=
  rows.filter fun row => groupKey plan.keyColumns row = key

/-- Every group can be folded into one row. -/
def Foldable (plan : GroupPlan) (rows : List Row) : Prop :=
  ∀ key, ∃ row, foldGroup plan.folds (rowsUnder plan rows key) = .ok row

/-- The group with a key, if it can be folded. -/
def groupAt (plan : GroupPlan) (rows : List Row) (key : List UInt8) : Group :=
  (key, (foldGroup plan.folds (rowsUnder plan rows key)).toOption.getD [])

/-- The groups of some rows, in the order of their first rows. -/
def groupsOf (plan : GroupPlan) (rows : List Row) : List Group :=
  (distinct (rows.map (groupKey plan.keyColumns))).map (groupAt plan rows)

theorem groupAt_eq {row : Row} (h : foldGroup plan.folds (rowsUnder plan rows key) = .ok row) :
    groupAt plan rows key = (key, row) := by
  rw [groupAt, h]
  rfl

theorem rowsUnder_append (rows rows' : List Row) (key : List UInt8) :
    rowsUnder plan (rows ++ rows') key = rowsUnder plan rows key ++ rowsUnder plan rows' key :=
  List.filter_append ..

theorem rowsUnder_self (row : Row) :
    rowsUnder plan [row] (groupKey plan.keyColumns row) = [row] := by
  simp [rowsUnder]

theorem rowsUnder_other {row : Row} (h : key ≠ groupKey plan.keyColumns row) :
    rowsUnder plan [row] key = [] := by
  simpa [rowsUnder] using Ne.symm h

theorem rowsUnder_eq_nil_iff :
    rowsUnder plan rows key = [] ↔ key ∉ rows.map (groupKey plan.keyColumns) := by
  simp [rowsUnder, List.filter_eq_nil_iff]

theorem Foldable.init {rows' : List Row} (h : Foldable plan (rows ++ rows')) :
    Foldable plan rows := by
  intro key
  obtain ⟨row, hrow⟩ := h key
  rw [rowsUnder_append] at hrow
  exact exists_of_foldGroup_append hrow

/-- Rows under other keys do not change a group. -/
theorem groupAt_concat {row : Row} (h : key ≠ groupKey plan.keyColumns row) :
    groupAt plan (rows ++ [row]) key = groupAt plan rows key := by
  rw [groupAt, groupAt, rowsUnder_append, rowsUnder_other h, List.append_nil]

/-- A step of the loop adds a row to the groups. -/
theorem addToGroups_eq {row : Row} (h : Foldable plan (rows ++ [row])) :
    addToGroups plan.folds (groupKey plan.keyColumns row) row (groupsOf plan rows) =
      .ok (groupsOf plan (rows ++ [row])) := by
  obtain ⟨key, hkey⟩ : ∃ key, groupKey plan.keyColumns row = key := ⟨_, rfl⟩
  have hkeys : (groupsOf plan rows).map Prod.fst =
      distinct (rows.map (groupKey plan.keyColumns)) := by
    rw [groupsOf, List.map_map]
    exact List.map_id _
  have hother : ∀ k ≠ key, groupAt plan (rows ++ [row]) k = groupAt plan rows k := by
    rintro k hk
    exact groupAt_concat (hkey ▸ hk)
  have hself : rowsUnder plan [row] key = [row] := hkey ▸ rowsUnder_self row
  obtain ⟨out, hout⟩ := h key
  rw [rowsUnder_append, hself] at hout
  rw [hkey]
  unfold groupsOf at hkeys ⊢
  rw [List.map_append, List.map_singleton, distinct_concat, hkey]
  by_cases hmem : key ∈ distinct (rows.map (groupKey plan.keyColumns))
  · rw [if_pos hmem]
    have hnodup := nodup_distinct (rows.map (groupKey plan.keyColumns))
    have hne : rowsUnder plan rows key ≠ [] := fun hnil =>
      rowsUnder_eq_nil_iff.1 hnil (mem_distinct.1 hmem)
    obtain ⟨first, rest, hunder⟩ := List.exists_cons_of_ne_nil hne
    obtain ⟨before, after, hsplit⟩ := List.append_of_mem hmem
    rw [hsplit] at hnodup ⊢
    obtain ⟨-, hafter, hdisjoint⟩ := List.nodup_append.1 hnodup
    have hnewBefore : key ∉ before := fun hin =>
      hdisjoint key hin key List.mem_cons_self rfl
    have hnewAfter : key ∉ after := (List.nodup_cons.1 hafter).1
    obtain ⟨acc, hacc⟩ := (Foldable.init h) key
    have hfold : foldRow plan.folds 0 acc row = .ok out := by
      rw [hunder, foldGroup_concat, ← hunder, hacc] at hout
      exact hout
    have hlast : groupAt plan (rows ++ [row]) key = (key, out) := by
      refine groupAt_eq ?_
      rw [rowsUnder_append, hself]
      exact hout
    rw [List.map_append, List.map_append, List.map_cons, List.map_cons, groupAt_eq hacc, hlast,
      List.map_congr_left fun k hk => hother k fun heq => hnewBefore (heq ▸ hk),
      List.map_congr_left fun k hk => hother k fun heq => hnewAfter (heq ▸ hk)]
    refine addToGroups_old ?_ hfold
    rw [List.map_map]
    exact fun hin => hnewBefore (by simpa [groupAt] using hin)
  · rw [if_neg hmem, addToGroups_new (by rwa [hkeys]), List.map_append, List.map_singleton]
    have hnil : rowsUnder plan rows key = [] :=
      rowsUnder_eq_nil_iff.2 (mt mem_distinct.2 hmem)
    have hlast : groupAt plan (rows ++ [row]) key = (key, row) := by
      refine groupAt_eq ?_
      rw [rowsUnder_append, hself, hnil]
      rfl
    rw [hlast, List.map_congr_left fun k hk => hother k fun heq => hmem (heq ▸ hk)]

/-- The loop reads rows into their groups. -/
theorem gather_eq {seen : List Row} (hroom : seen.length + rows.length ≤ plan.maxRows)
    (hfoldable : Foldable plan (seen ++ rows)) :
    gather plan seen.length (groupsOf plan seen) (rows.map .ok) =
      .ok (groupsOf plan (seen ++ rows)) := by
  induction rows generalizing seen with
  | nil => rw [List.append_nil]; rfl
  | cons row rows ih =>
    rw [List.append_cons] at hfoldable ⊢
    rw [List.length_cons] at hroom
    have hadd := addToGroups_eq hfoldable.init
    rw [List.map_cons, gather_cons (by omega) hadd]
    have hlength : seen.length + 1 = (seen ++ [row]).length := by
      rw [List.length_append, List.length_singleton]
    rw [hlength]
    exact ih (by rw [← hlength]; omega) hfoldable

/-! ## The order of the groups -/

/-- The row of a group as it is put in order. -/
def GroupPlan.rowOf (plan : GroupPlan) (group : Group) : Row :=
  finishRow plan.folds group.2

/-- A group holds the value of its first row in every column without a fold of its own. -/
theorem exists_first {group : Group} {j : Nat} (hfoldable : Foldable plan rows)
    (hgroup : group ∈ groupsOf plan rows) (hfirst : plan.folds[j]? = some .first) :
    ∃ first, (rows.find? fun row => groupKey plan.keyColumns row = group.1) = some first ∧
      (plan.rowOf group).column j = first.column j := by
  obtain ⟨key, hkey, rfl⟩ := List.mem_map.1 hgroup
  obtain ⟨out, hout⟩ := hfoldable key
  rw [groupAt_eq hout]
  have hne : rowsUnder plan rows key ≠ [] := fun hnil =>
    rowsUnder_eq_nil_iff.1 hnil (mem_distinct.1 hkey)
  obtain ⟨first, rest, hunder⟩ := List.exists_cons_of_ne_nil hne
  refine ⟨first, ?_, ?_⟩
  · rw [← List.head?_filter]
    show (rowsUnder plan rows key).head? = some first
    rw [hunder]
    rfl
  · rw [hunder] at hout
    have hkept : out[j]? = first[j]? := getElem?_foldGroup (by rw [hfirst]; rfl) hout
    rw [Row.column, Row.column, GroupPlan.rowOf,
      getElem?_finishRow out fun n s => by rw [hfirst]; simp, hkept]

/-- The groups are finished and sorted as rows. -/
theorem finish_eq (hcomparable :
      ComparableColumns plan.outputKeys ((groupsOf plan rows).map plan.rowOf)) :
    ∃ sorted : List Group, sorted.Perm (groupsOf plan rows) ∧
      plan.finish (groupsOf plan rows) =
        some (sorted.map fun group => cutTo plan.width (plan.rowOf group)) ∧
      sorted.Pairwise fun a b =>
        compareRows plan.outputKeys (plan.rowOf a) (plan.rowOf b) ≠ .gt := by
  have hsorted : stablySorted plan.outputKeys ((groupsOf plan rows).map plan.rowOf) =
      ((groupsOf plan rows).mergeSort fun a b =>
        compareRows plan.outputKeys (plan.rowOf a) (plan.rowOf b) != .gt).map plan.rowOf :=
    (List.map_mergeSort (s := fun a b => compareRows plan.outputKeys a b != .gt)
      (f := plan.rowOf) fun _ _ _ _ => rfl).symm
  refine ⟨(groupsOf plan rows).mergeSort fun a b =>
    compareRows plan.outputKeys (plan.rowOf a) (plan.rowOf b) != .gt,
    List.mergeSort_perm _ _, ?_, ?_⟩
  · have hrows : sortRows plan.outputKeys ((groupsOf plan rows).map fun g =>
        finishRow plan.folds g.2) = some (stablySorted plan.outputKeys
          ((groupsOf plan rows).map plan.rowOf)) := sortRows_eq hcomparable
    rw [GroupPlan.finish, hrows, hsorted]
    simp only [bind, Option.bind, pure, List.map_map]
    rfl
  · have hpairwise := pairwise_stablySorted hcomparable
    rw [hsorted, List.pairwise_map] at hpairwise
    exact hpairwise

/-! ## Totals of hidden columns -/

/-- The sum of the integers that the rows with a group key have in a column. -/
def totalUnder (plan : GroupPlan) (rows : List Row) (j : Nat) (key : List UInt8) : Int :=
  ((rowsUnder plan rows key).filterMap fun row => (row.column j).toInt64?.map Int64.toInt).sum

/-- Groups stand in the order of their totals in the column of a sort key. -/
def ByTotal (plan : GroupPlan) (rows : List Row) (key : SortKey) (groups : List Group) : Prop :=
  groups.Pairwise fun a b =>
    match key.direction with
    | .asc => totalUnder plan rows key.index a.1 ≤ totalUnder plan rows key.index b.1
    | .desc => totalUnder plan rows key.index b.1 ≤ totalUnder plan rows key.index a.1

/-- Integers that are in order under a key are in its direction. -/
theorem SortKey.le_of_compareValues {key : SortKey} {a b : Datum} {x y : Int64}
    (ha : a.toInt64? = some x) (hb : b.toInt64? = some y) (h : key.compareValues a b ≠ .gt) :
    match key.direction with
    | .asc => x.toInt ≤ y.toInt
    | .desc => y.toInt ≤ x.toInt := by
  rw [key.compareValues_values (Datum.isNull_of_toInt64? ha) (Datum.isNull_of_toInt64? hb)] at h
  unfold Datum.order at h
  rw [Datum.compare?_ints ha hb, Datum.compare?_ints hb ha] at h
  cases hdirection : key.direction <;> rw [hdirection] at h <;>
    exact Int.not_lt.1 fun hlt => h (Int.compare_eq_gt.2 hlt)

/-- Rows that are in order are in order in their first column. -/
theorem compareValues_of_compareRows {key : SortKey} {keys : List SortKey} {a b : Row}
    (h : compareRows (key :: keys) a b ≠ .gt) :
    key.compareValues (a.column key.index) (b.column key.index) ≠ .gt := by
  intro hgt
  rw [compareRows, hgt] at h
  exact h rfl

/-- Where no two rows have one key, a row is its group. -/
theorem rowsUnder_eq_singleton {row : Row}
    (hnodup : (rows.map (groupKey plan.keyColumns)).Nodup)
    (hfirst : (rows.find? fun row => groupKey plan.keyColumns row = key) = some row) :
    rowsUnder plan rows key = [row] := by
  rw [← List.head?_filter] at hfirst
  obtain ⟨rest, hunder⟩ := List.head?_eq_some_iff.1 hfirst
  have hkeys : (rowsUnder plan rows key).map (groupKey plan.keyColumns) =
      List.replicate (rowsUnder plan rows key).length key := by
    refine List.map_eq_replicate_iff.2 fun row hrow => ?_
    simpa using List.of_mem_filter hrow
  have hsublist : ((rowsUnder plan rows key).map (groupKey plan.keyColumns)).Nodup :=
    hnodup.sublist (List.filter_sublist.map _)
  rw [hkeys, List.nodup_replicate] at hsublist
  have hunder : rowsUnder plan rows key = row :: rest := hunder
  rw [hunder, List.length_cons] at hsublist
  rw [hunder, List.length_eq_zero_iff.1 (show rest.length = 0 by omega)]

/-- Where no two rows have one key, groups in the order of a column without a fold are in the order
of its totals. -/
theorem byTotal_of_nodup {key : SortKey} {keys : List SortKey} {sorted : List Group}
    (hsorted : sorted.Pairwise fun a b =>
      compareRows (key :: keys) (plan.rowOf a) (plan.rowOf b) ≠ .gt)
    (hfirst : ∀ group ∈ sorted, ∃ row,
      (rows.find? fun row => groupKey plan.keyColumns row = group.1) = some row ∧
        (plan.rowOf group).column key.index = row.column key.index)
    (hints : ∀ row ∈ rows, (row.column key.index).toInt64?.isSome)
    (hnodup : (rows.map (groupKey plan.keyColumns)).Nodup) : ByTotal plan rows key sorted := by
  have htotal : ∀ group ∈ sorted, ∃ k, ((plan.rowOf group).column key.index).toInt64? = some k ∧
      totalUnder plan rows key.index group.1 = k.toInt := by
    intro group hgroup
    obtain ⟨row, hrow, hcolumn⟩ := hfirst group hgroup
    obtain ⟨k, hk⟩ := Option.isSome_iff_exists.1 (hints row (List.mem_of_find?_eq_some hrow))
    refine ⟨k, by rw [hcolumn, hk], ?_⟩
    rw [totalUnder, rowsUnder_eq_singleton hnodup hrow]
    simp [hk]
  refine hsorted.imp_of_mem fun {a b} ha hb hab => ?_
  obtain ⟨x, hx, htotalA⟩ := htotal a ha
  obtain ⟨y, hy, htotalB⟩ := htotal b hb
  rw [htotalA, htotalB]
  exact SortKey.le_of_compareValues hx hy (compareValues_of_compareRows hab)

/-- The groups of a select on several shards come out in the order of its sort items.  In the column
of an item that no projection carries, each group has the value of its first row.  If no group is
spread over several rows and such an item comes first, the groups are in the order of its totals. -/
theorem hidden_order_by_first_rows {W : Type} (closer : Closer W) (maxRows : Nat) (w : W)
    {q : Query} (hselect : q.kind = .select) (hstar : q.shape.projections ≠ [])
    (hvisible : q.shape.visibleLabels.Pairwise fun a b => ¬ sameName a b)
    (hfree : ∀ a ∈ q.shape.visibleLabels, ∀ b ∈ q.shape.derivedLabels, ¬ sameName a b)
    (horder : q.shape.orderBy ≠ []) {partials : List (List Row)} {first second : Source}
    {rest : List Source}
    (hcolumns : ∀ s ∈ first :: second :: rest,
      s.columns = q.shape.visibleLabels ++ q.shape.derivedLabels)
    (hsources : List.Forall₂ Source.Delivers partials (first :: second :: rest))
    (hclosed : (Source.closeAll closer (first :: second :: rest) w).1 = .ok ())
    (hroom : partials.flatten.length ≤ maxRows) {columns : List String} {width : Option Nat}
    {page : Option Sql.Pagination}
    (hplan : planMerge maxRows (.query q) (first :: second :: rest) =
      .ok ⟨columns, .grouped plan, width, page⟩)
    (hfoldable : Foldable plan partials.flatten)
    (hcomparable : ComparableColumns plan.orderKeys
      ((groupsOf plan partials.flatten).map plan.rowOf)) :
    ∃ sorted : List Group, sorted.Perm (groupsOf plan partials.flatten) ∧
      mergeSources closer maxRows (.query q) (first :: second :: rest) w =
        (.ok (.ofReader ⟨.single (.ofRows (cutTo plan.width columns)
            (sorted.map fun group => cutTo plan.width (plan.rowOf group))),
            page.map Window.ofPage⟩ .groupByMemory width),
          (Source.closeAll closer (first :: second :: rest) w).2.2) ∧
      sorted.Pairwise (fun a b =>
        compareRows plan.orderKeys (plan.rowOf a) (plan.rowOf b) ≠ .gt) ∧
      List.Forall₂ (fun item key => q.shape.Finds item key ∧
        (q.shape.projectionFor? item.column = none → ∀ group ∈ sorted, ∃ row,
          (partials.flatten.find? fun row => groupKey plan.keyColumns row = group.1) = some row ∧
            (plan.rowOf group).column key.index = row.column key.index))
        q.shape.orderBy plan.orderKeys ∧
      ∀ item ∈ q.shape.orderBy.head?, q.shape.projectionFor? item.column = none →
        ∀ key ∈ plan.orderKeys.head?,
          (∀ row ∈ partials.flatten, (row.column key.index).toInt64?.isSome) →
          (partials.flatten.map (groupKey plan.keyColumns)).Nodup →
          ByTotal plan partials.flatten key sorted := by
  have hlabels := QueryShape.labelled_of_visible hvisible hfree
  obtain ⟨kind, hplanned, hkind⟩ := planMerge_planned maxRows hselect hstar hlabels hcolumns
  cases hkind.symm.trans hplan
  obtain ⟨-, hfinds, -, hfolds, -, rfl⟩ := hplanned
  have hkeys : plan.outputKeys = plan.orderKeys := by
    refine if_neg fun hempty => horder ?_
    rw [List.isEmpty_iff] at hempty
    rw [hempty] at hfinds
    exact List.forall₂_nil_right_iff.1 hfinds
  rw [← hkeys] at hcomparable ⊢
  obtain ⟨sorted, hperm, hfinish, hpairwise⟩ := finish_eq hcomparable
  have hvalues : List.Forall₂ (fun item key => q.shape.Finds item key ∧
      (q.shape.projectionFor? item.column = none → ∀ group ∈ sorted, ∃ row,
        (partials.flatten.find? fun row => groupKey plan.keyColumns row = group.1) = some row ∧
          (plan.rowOf group).column key.index = row.column key.index))
      q.shape.orderBy plan.orderKeys := by
    refine hfinds.imp fun item key hkey => ⟨hkey, fun hhidden group hgroup => ?_⟩
    exact exists_first hfoldable (hperm.mem_iff.1 hgroup) (hkey.fold_eq hfolds hhidden)
  refine ⟨sorted, hperm, ?_, hpairwise, hkeys ▸ hvalues, ?_⟩
  · have hgather : gather plan 0 [] ((first :: second :: rest).flatMap (·.outcomes)) =
        .ok (groupsOf plan partials.flatten) := by
      rw [outcomes_flatten hsources]
      exact @gather_eq _ _ [] (by rwa [List.length_nil, Nat.zero_add]) hfoldable
    rw [mergeSources, hplan]
    simp only [List.isEmpty_cons, Bool.false_and, Bool.false_eq_true, if_false, buildMerge,
      mergeGroups, hgather]
    generalize Source.closeAll closer (first :: second :: rest) w = close at hclosed ⊢
    obtain ⟨closed, left, w'⟩ := close
    have hclosed : closed = .ok () := hclosed
    simp only [hclosed, hfinish]
    rfl
  · intro item hitem hhidden key hkey hints hnodup
    rw [hkeys] at hpairwise
    rw [hkeys] at hkey
    obtain ⟨items, hitems⟩ := List.head?_eq_some_iff.1 hitem
    obtain ⟨keys, hkeys⟩ := List.head?_eq_some_iff.1 hkey
    rw [hitems, hkeys] at hvalues
    rw [hkeys] at hpairwise
    cases hvalues with
    | cons hfirst _ => exact byTotal_of_nodup hpairwise (hfirst.2 hhidden) hints hnodup

/-- Users by the number of their orders. -/
def usersByOrders : Query where
  kind := .select
  template := ⟨"SELECT user_id FROM t_order GROUP BY user_id ORDER BY COUNT(id)", []⟩
  tables := ["t_order"]
  conditions := []
  shape :=
    { projections := [.column "user_id" none]
      groupBy := [⟨"user_id", .asc, .first⟩]
      orderBy := [⟨"COUNT(id)", .asc, .first⟩] }

/-- How the users are merged. -/
def ordersPlan : GroupPlan where
  groupKeys := [⟨0, .asc, .first⟩]
  orderKeys := [⟨1, .asc, .first⟩]
  folds := [.first, .first]
  width := some 1
  maxRows := 10

/-- The numbers of orders of three users, each of whom has orders on one shard only. -/
def ordersApart : List (List Row) :=
  [[[.int64 1, .int64 7], [.int64 2, .int64 5]], [[.int64 3, .int64 6]]]

theorem hidden_order_by_first_rows_apart :
    ∃ sorted : List Group, sorted.Perm (groupsOf ordersPlan ordersApart.flatten) ∧
      mergeSources (fun _ w => (.ok (), w)) 10 (.query usersByOrders)
          (ordersApart.map (.ofRows ["user_id", "ORDER_BY_DERIVED_0"])) () =
        (.ok (.ofReader ⟨.single (.ofRows ["user_id"]
          (sorted.map fun group => (ordersPlan.rowOf group).take 1)), none⟩ .groupByMemory
          (some 1)), ()) ∧
      ByTotal ordersPlan ordersApart.flatten ⟨1, .asc, .first⟩ sorted := by
  have hfoldable : Foldable ordersPlan ordersApart.flatten := by
    intro key
    by_cases hkey : key ∈ ordersApart.flatten.map (groupKey ordersPlan.keyColumns)
    · have hall : ∀ key ∈ ordersApart.flatten.map (groupKey ordersPlan.keyColumns),
          (foldGroup ordersPlan.folds
            (rowsUnder ordersPlan ordersApart.flatten key)).toOption.isSome := by decide
      have hsome := hall key hkey
      cases hfold : foldGroup ordersPlan.folds
          (rowsUnder ordersPlan ordersApart.flatten key) with
      | ok row => exact ⟨row, rfl⟩
      | error e =>
        rw [hfold] at hsome
        cases hsome
    · rw [rowsUnder_eq_nil_iff.2 hkey]
      exact ⟨[], rfl⟩
  have hcomparable : ComparableColumns ordersPlan.orderKeys
      ((groupsOf ordersPlan ordersApart.flatten).map ordersPlan.rowOf) := by
    intro key hkey
    rw [List.mem_singleton.1 hkey]
    refine ⟨_, Datum.TransitiveOn.integers, fun row hrow => .inr ?_⟩
    revert row
    decide
  obtain ⟨sorted, hperm, hmerge, -, -, htotal⟩ :=
    hidden_order_by_first_rows (q := usersByOrders) (fun _ w => (.ok (), w)) 10 () rfl
      (List.cons_ne_nil _ _) (by decide) (by decide) (List.cons_ne_nil _ _)
      (fun s hs => by rcases List.mem_pair.1 hs with rfl | rfl <;> rfl)
      (.cons (Source.delivers_ofRows _ _) (.cons (Source.delivers_ofRows _ _) .nil)) rfl
      (by decide) rfl hfoldable hcomparable
  exact ⟨sorted, hperm, hmerge, htotal _ rfl (by decide) _ rfl (by decide) (by decide)⟩

/-- The numbers of orders of two users who both have orders on both shards. -/
def ordersByUnit : List (List Row) :=
  [[[.int64 1, .int64 1], [.int64 2, .int64 5]], [[.int64 1, .int64 10], [.int64 2, .int64 1]]]

/-- The first shard alone decides on the order of the users: one has 1 + 10 orders and comes before
the other, who has 5 + 1. -/
theorem hidden_order_not_by_total :
    usersByOrders.shape.derivedColumns = [⟨"COUNT(id)", "ORDER_BY_DERIVED_0"⟩] ∧
      ∃ (r : ResultSet) (users : List Int64),
        mergeSources (fun _ w => (.ok (), w)) 10 (.query usersByOrders)
          (ordersByUnit.map (.ofRows ["user_id", "ORDER_BY_DERIVED_0"])) () = (.ok r, ()) ∧
        (r.readAll (fun _ w => (.ok (), w)) ()).1 = .ok (users.map fun user => [.int64 user]) ∧
        ¬ users.Pairwise fun a b =>
          totalUnder ordersPlan ordersByUnit.flatten 1 (groupKey [0] [.int64 a]) ≤
            totalUnder ordersPlan ordersByUnit.flatten 1 (groupKey [0] [.int64 b]) :=
  ⟨by decide, _, [1, 2], rfl, rfl, by decide⟩

end Sharding
