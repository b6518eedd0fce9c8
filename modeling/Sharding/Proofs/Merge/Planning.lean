import Sharding.Merge.Plan
import Sharding.Proofs.Results
import Sharding.Proofs.Statement.Derived

/-!
# Plans find what routing added

Routing extends the select list of a query by derived columns, and the plan of a merge looks columns
up by their labels again.  When every shard reports the visible labels and then the derived ones,
and no two labels are the same, a label is found at its own position (`columnIndex?_eq`).

* `sortKey_finds`: the key of a sort or group item points at a projection known by the item's name,
  or at a derived column with the item as its expression (`QueryShape.Finds`).
* `folds_foldsFound`: each aggregate of the select list is folded by its own function at its own
  position, an average from the count and the sum that were derived for it (`QueryShape.Folds`).
  Each projection writes the folds of a few columns (`foldsOf`), and no two projections write
  different folds of one column.
* `planMerge_finds_derived` puts both together: the plan exists.
-/

namespace Sharding

namespace QueryShape

/-- The key points at the column of an item: at a projection known by the item's name, or, if there
is none, at a derived column with the item as its expression, which is no part of an average. -/
def Finds (q : QueryShape) (item : SortItem) (key : SortKey) : Prop :=
  key.direction = item.direction ∧ key.nulls = item.nulls ∧
    ((∃ p, q.projections[key.index]? = some p ∧ p.isNamed item.column) ∨
      q.projectionFor? item.column = none ∧ ∃ k d, key.index = q.visibleWidth + k ∧
        q.derivedColumns[k]? = some d ∧ sameName d.expression item.column ∧ d ∉ q.averageParts)

/-- The folds compute the aggregates of the select list.  Columns that are no aggregates keep their
first values, and so do the derived columns that are no parts of averages. -/
structure Folds (q : QueryShape) (folds : List ColumnFold) : Prop where
  column : ∀ (i : Nat) (expression : String) (name : Option String),
    q.projections[i]? = some (.column expression name) →
    folds[i]? = some .first
  count : ∀ (i : Nat) (arg : String) (name : Option String),
    q.projections[i]? = some (.aggregate .count arg name) →
    folds[i]? = some .add
  sum : ∀ (i : Nat) (arg : String) (name : Option String),
    q.projections[i]? = some (.aggregate .sum arg name) →
    folds[i]? = some .add
  max : ∀ (i : Nat) (arg : String) (name : Option String),
    q.projections[i]? = some (.aggregate .max arg name) →
    folds[i]? = some .max
  min : ∀ (i : Nat) (arg : String) (name : Option String),
    q.projections[i]? = some (.aggregate .min arg name) →
    folds[i]? = some .min
  average : ∀ (i : Nat) (arg : String) (name : Option String),
    q.projections[i]? = some (.aggregate .avg arg name) →
    ∃ n s, q.derivedColumns[n]? = some ⟨Aggregate.count.call arg, countAlias i⟩ ∧
      q.derivedColumns[s]? = some ⟨Aggregate.sum.call arg, sumAlias i⟩ ∧
      folds[i]? = some (.average (q.visibleWidth + n) (q.visibleWidth + s)) ∧
      folds[q.visibleWidth + n]? = some .add ∧ folds[q.visibleWidth + s]? = some .add
  hidden : ∀ (k : Nat) (d : Sql.DerivedColumn), q.derivedColumns[k]? = some d → d ∉ q.averageParts →
    folds[q.visibleWidth + k]? = some .first

/-- The rows are merged as the query asks for, by columns that are found. -/
def Planned (q : QueryShape) (maxRows : Nat) : MergeKind → Prop
  | .concat => q.isGrouped = false ∧ q.orderBy = []
  | .ordered keys => q.isGrouped = false ∧ q.orderBy ≠ [] ∧ List.Forall₂ q.Finds q.orderBy keys
  | .grouped plan => q.isGrouped = true ∧ List.Forall₂ q.Finds q.orderBy plan.orderKeys ∧
      List.Forall₂ q.Finds q.groupBy plan.groupKeys ∧ q.Folds plan.folds ∧
      plan.width = some q.visibleWidth ∧ plan.maxRows = maxRows

/-- The key of an item that no projection carries points at a column that keeps its first value. -/
theorem Finds.fold_eq {q : QueryShape} {item : SortItem} {key : SortKey} {folds : List ColumnFold}
    (h : q.Finds item key) (hfolds : q.Folds folds)
    (hhidden : q.projectionFor? item.column = none) : folds[key.index]? = some .first := by
  obtain ⟨-, -, ⟨p, hp, hnamed⟩ | ⟨-, k, d, hindex, hd, -, hpart⟩⟩ := h
  · exact absurd hnamed (List.find?_eq_none.1 hhidden p (List.mem_of_getElem? hp))
  · rw [hindex]
    exact hfolds.hidden k d hd hpart

end QueryShape

/-! ## Looking up labels -/

/-- Among different labels each is found at its own position. -/
theorem columnIndex?_eq {columns : List String} {label : String} {i : Nat}
    (hdistinct : columns.Pairwise fun a b => ¬ sameName a b) (h : columns[i]? = some label) :
    columnIndex? columns label = some i := by
  obtain ⟨hi, hlabel⟩ := List.getElem?_eq_some_iff.1 h
  have hfound : columns.findIdx? (sameName · label) = some i := by
    refine List.findIdx?_eq_some_iff_getElem.2 ⟨hi, ?_, fun j hj => ?_⟩
    · rw [hlabel]
      exact sameName_refl label
    · rw [← hlabel]
      exact List.pairwise_iff_getElem.1 hdistinct j i (Nat.lt_trans hj hi) hi hj
  rw [columnIndex?, hfound]
  rfl

section Query

variable {q : QueryShape}

/-! ## Sort keys -/

/-- The key of an item points at the item's column. -/
theorem sortKey_finds (hlabels : q.Labelled) (hstar : q.projections ≠ []) {item : SortItem}
    (hitem : item ∈ q.groupBy ∨ item ∈ q.orderBy) :
    ∃ key, sortKey q q.reportedLabels item = .ok key ∧ q.Finds item key := by
  cases hprojection : q.projectionFor? item.column with
  | some p =>
    have hresolved : q.resolveLabel item.column = p.label := by
      rw [QueryShape.resolveLabel, hprojection]
    obtain ⟨i, hi⟩ := List.getElem?_of_mem (List.mem_of_find?_eq_some hprojection)
    have hnamed : p.isNamed item.column :=
      List.find?_some (p := fun p : Projection => p.isNamed item.column) hprojection
    have hfound := columnIndex?_eq hlabels (QueryShape.getElem?_reported_visible hi)
    refine ⟨⟨i, item.direction, item.nulls⟩, ?_, rfl, rfl, .inl ⟨p, hi, hnamed⟩⟩
    rw [sortKey, hresolved, hfound]
    rfl
  | none =>
    obtain ⟨d, hhidden, hd⟩ := QueryShape.find?_derivedColumns hstar hitem hprojection
    have hresolved : q.resolveLabel item.column = d.label := by
      rw [QueryShape.resolveLabel, hprojection]
      dsimp only
      rw [hd]
    obtain ⟨k, hk⟩ := List.getElem?_of_mem (List.mem_of_find?_eq_some hd)
    have hfound := columnIndex?_eq hlabels (QueryShape.getElem?_reported_derived hk)
    have hexpression : sameName d.expression item.column :=
      List.find?_some (p := fun d : Sql.DerivedColumn => sameName d.expression item.column) hd
    refine ⟨⟨q.visibleWidth + k, item.direction, item.nulls⟩, ?_, rfl, rfl,
      .inr ⟨hprojection, k, d, rfl, hk, hexpression, QueryShape.not_mem_averageParts hhidden⟩⟩
    rw [sortKey, hresolved, hfound]
    rfl

theorem sortKeys_finds (hlabels : q.Labelled) (hstar : q.projections ≠ [])
    {items : List SortItem} (hitems : ∀ item ∈ items, item ∈ q.groupBy ∨ item ∈ q.orderBy) :
    ∃ keys, sortKeys q q.reportedLabels items = .ok keys ∧ List.Forall₂ q.Finds items keys := by
  induction items with
  | nil => exact ⟨[], rfl, .nil⟩
  | cons item items ih =>
    obtain ⟨key, hkey, hfinds⟩ := sortKey_finds hlabels hstar (hitems item List.mem_cons_self)
    obtain ⟨keys, hkeys, hall⟩ := ih fun item' h => hitems item' (List.mem_cons_of_mem _ h)
    refine ⟨key :: keys, ?_, .cons hfinds hall⟩
    exact mapM_eq_ok_iff.2 (.cons hkey (mapM_eq_ok_iff.1 hkeys))

/-! ## Folds -/

/-- The folds that a projection writes, with the columns it writes them to. -/
def foldsOf (columns : List String) : Projection × Nat → List (Nat × ColumnFold)
  | (.column _ _, _) => []
  | (.aggregate .count _ _, i) | (.aggregate .sum _ _, i) => [(i, .add)]
  | (.aggregate .max _ _, i) => [(i, .max)]
  | (.aggregate .min _ _, i) => [(i, .min)]
  | (.aggregate .avg _ _, i) =>
    let n := (columnIndex? columns (countAlias i)).getD 0
    let s := (columnIndex? columns (sumAlias i)).getD 0
    [(n, .add), (s, .add), (i, .average n s)]

/-- A list with some of its elements written anew. -/
def written {α : Type} (xs : List α) (writes : List (Nat × α)) : List α :=
  writes.foldl (fun xs w => xs.set w.1 w.2) xs

section Written

variable {α : Type} {xs : List α} {writes : List (Nat × α)} {j : Nat}

theorem getElem?_written_of_not_mem (h : ∀ v, (j, v) ∉ writes) :
    (written xs writes)[j]? = xs[j]? := by
  induction writes generalizing xs with
  | nil => rfl
  | cons write writes ih =>
    have hne : write.1 ≠ j := fun heq => h write.2 (heq ▸ List.mem_cons_self)
    rw [written, List.foldl_cons]
    refine (ih fun v hv => h v (List.mem_cons_of_mem _ hv)).trans ?_
    exact List.getElem?_set_ne hne

/-- Where all writes agree, the element is what they wrote. -/
theorem getElem?_written_of_mem {v : α} (hj : j < xs.length) (hmem : (j, v) ∈ writes)
    (hagree : ∀ v', (j, v') ∈ writes → v' = v) : (written xs writes)[j]? = some v := by
  induction writes generalizing xs with
  | nil => cases hmem
  | cons write writes ih =>
    rw [written, List.foldl_cons]
    have hagree' := fun v' hv' => hagree v' (List.mem_cons_of_mem _ hv')
    by_cases hlater : (j, v) ∈ writes
    · exact ih (by rwa [List.length_set]) hlater hagree'
    · have hwrite : (j, v) = write := (List.mem_cons.1 hmem).resolve_right hlater
      subst hwrite
      refine (getElem?_written_of_not_mem fun v' hv' => hlater ?_).trans
        (List.getElem?_set_self hj)
      rwa [← hagree' v' hv']

theorem written_append (xs : List α) (writes writes' : List (Nat × α)) :
    written xs (writes ++ writes') = written (written xs writes) writes' :=
  List.foldl_append

end Written

/-- A step of the loop writes what its projection says, if the parts of an average have columns. -/
theorem foldOfProjection_eq {columns : List String} {p : Projection} {i : Nat}
    (hparts : ∀ arg name, p = .aggregate .avg arg name →
      (columnIndex? columns (countAlias i)).isSome ∧ (columnIndex? columns (sumAlias i)).isSome)
    (folds : List ColumnFold) : foldOfProjection columns folds (p, i) =
      .ok (written folds (foldsOf columns (p, i))) := by
  cases p with
  | column expression name => rfl
  | aggregate f arg name =>
    cases f with
    | avg =>
      obtain ⟨hcount, hsum⟩ := hparts arg name rfl
      obtain ⟨n, hn⟩ := Option.isSome_iff_exists.1 hcount
      obtain ⟨s, hs⟩ := Option.isSome_iff_exists.1 hsum
      simp only [foldOfProjection, foldsOf, derivedIndex, hn, hs, Option.getD_some]
      rfl
    | _ => rfl

theorem foldlM_foldOfProjection {columns : List String} {projections : List (Projection × Nat)}
    (hparts : ∀ p ∈ projections, ∀ arg name, p.1 = .aggregate .avg arg name →
      (columnIndex? columns (countAlias p.2)).isSome ∧
        (columnIndex? columns (sumAlias p.2)).isSome)
    (folds : List ColumnFold) : projections.foldlM (foldOfProjection columns) folds =
      .ok (written folds (projections.flatMap (foldsOf columns))) := by
  induction projections generalizing folds with
  | nil => rfl
  | cons p projections ih =>
    obtain ⟨p, i⟩ := p
    rw [List.foldlM_cons, foldOfProjection_eq (hparts _ List.mem_cons_self) folds,
      List.flatMap_cons, written_append]
    exact ih (fun p' hp' => hparts p' (List.mem_cons_of_mem _ hp')) _

section Reported

variable {i j k : Nat} {p : Projection} {f : ColumnFold} {d : Sql.DerivedColumn}

/-- A part of an average is found among the derived columns. -/
theorem exists_part (hlabels : q.Labelled)
    (hd : d ∈ q.averageParts) : ∃ n, q.derivedColumns[n]? = some d ∧
      columnIndex? q.reportedLabels d.label = some (q.visibleWidth + n) := by
  have hmem : d ∈ q.derivedColumns := by
    rw [QueryShape.derivedColumns_eq]
    exact List.mem_append_right _ hd
  obtain ⟨n, hn⟩ := List.getElem?_of_mem hmem
  exact ⟨n, hn, columnIndex?_eq hlabels (QueryShape.getElem?_reported_derived hn)⟩

/-- A projection writes to its own column, and to those of the parts of an average. -/
theorem foldsOf_cases (hlabels : q.Labelled)
    (hp : q.projections[i]? = some p) (h : (j, f) ∈ foldsOf q.reportedLabels (p, i)) :
    j = i ∨ f = .add ∧ ∃ n d, j = q.visibleWidth + n ∧ q.derivedColumns[n]? = some d ∧
      d ∈ q.averageParts := by
  cases p with
  | column expression name => cases h
  | aggregate function arg name =>
    cases function with
    | avg =>
      obtain ⟨n, hn, hnfound⟩ := exists_part hlabels (QueryShape.count_mem hp)
      obtain ⟨s, hs, hsfound⟩ := exists_part hlabels (QueryShape.sum_mem hp)
      simp only [foldsOf, hnfound, hsfound, Option.getD_some, List.mem_cons, Prod.mk.injEq,
        List.not_mem_nil, or_false] at h
      rcases h with ⟨rfl, rfl⟩ | ⟨rfl, rfl⟩ | ⟨rfl, rfl⟩
      · exact .inr ⟨rfl, n, _, rfl, hn, QueryShape.count_mem hp⟩
      · exact .inr ⟨rfl, s, _, rfl, hs, QueryShape.sum_mem hp⟩
      · exact .inl rfl
    | _ => exact .inl (congrArg Prod.fst (List.mem_singleton.1 h))

/-- The folds that all projections write. -/
def QueryShape.foldsWritten (q : QueryShape) : List (Nat × ColumnFold) :=
  q.projections.zipIdx.flatMap (foldsOf q.reportedLabels)

theorem mem_foldsWritten (hp : q.projections[i]? = some p)
    (h : (j, f) ∈ foldsOf q.reportedLabels (p, i)) : (j, f) ∈ q.foldsWritten :=
  List.mem_flatMap.2 ⟨(p, i), List.mk_mem_zipIdx_iff_getElem?.2 hp, h⟩

/-- In a visible column stands what its projection writes. -/
theorem visible_written (hlabels : q.Labelled)
    (hp : q.projections[j]? = some p) (h : (j, f) ∈ q.foldsWritten) :
    (j, f) ∈ foldsOf q.reportedLabels (p, j) := by
  obtain ⟨⟨p', i⟩, hp', hmem⟩ := List.mem_flatMap.1 h
  have hp' := List.mk_mem_zipIdx_iff_getElem?.1 hp'
  rcases foldsOf_cases hlabels hp' hmem with rfl | ⟨-, n, d, rfl, -⟩
  · cases hp.symm.trans hp'
    exact hmem
  · have hlt : q.visibleWidth + n < q.projections.length := (List.getElem?_eq_some_iff.1 hp).1
    have hwidth : q.visibleWidth = q.projections.length := rfl
    omega

/-- Of the derived columns only the parts of averages are written to, and these add up. -/
theorem derived_written (hlabels : q.Labelled)
    (h : (q.visibleWidth + k, f) ∈ q.foldsWritten) :
    f = .add ∧ ∃ d, q.derivedColumns[k]? = some d ∧ d ∈ q.averageParts := by
  obtain ⟨⟨p, i⟩, hp, hmem⟩ := List.mem_flatMap.1 h
  have hp := List.mk_mem_zipIdx_iff_getElem?.1 hp
  rcases foldsOf_cases hlabels hp hmem with hj | ⟨hf, n, d, hj, hd, hpart⟩
  · have hlt : i < q.projections.length := (List.getElem?_eq_some_iff.1 hp).1
    have hwidth : q.visibleWidth = q.projections.length := rfl
    omega
  · obtain rfl : k = n := Nat.add_left_cancel hj
    exact ⟨hf, d, hd, hpart⟩

/-- The folds of the columns that a shard reports. -/
def QueryShape.foldsFound (q : QueryShape) : List ColumnFold :=
  written (q.reportedLabels.map fun _ => .first) q.foldsWritten

/-- Where a projection writes at all, the writes to its column have to be one. -/
theorem foldsFound_of_mem {label : String} (hlabel : q.reportedLabels[j]? = some label)
    (hmem : (j, f) ∈ q.foldsWritten) (hagree : ∀ f', (j, f') ∈ q.foldsWritten → f' = f) :
    q.foldsFound[j]? = some f := by
  refine getElem?_written_of_mem ?_ hmem hagree
  rw [List.length_map]
  exact (List.getElem?_eq_some_iff.1 hlabel).1

theorem foldsFound_of_not_mem {label : String} (hlabel : q.reportedLabels[j]? = some label)
    (h : ∀ f, (j, f) ∉ q.foldsWritten) : q.foldsFound[j]? = some .first := by
  rw [QueryShape.foldsFound, getElem?_written_of_not_mem h, List.getElem?_map, hlabel]
  rfl

/-- A projection other than an average writes to its own column alone. -/
theorem foldsFound_own (hlabels : q.Labelled)
    (hp : q.projections[i]? = some p) (hfolds : foldsOf q.reportedLabels (p, i) = [(i, f)]) :
    q.foldsFound[i]? = some f := by
  refine foldsFound_of_mem (QueryShape.getElem?_reported_visible hp)
    (mem_foldsWritten hp (hfolds ▸ List.mem_singleton_self _)) fun f' h => ?_
  have hmem := visible_written hlabels hp h
  rw [hfolds, List.mem_singleton] at hmem
  exact congrArg Prod.snd hmem

theorem foldsFound_average (hlabels : q.Labelled)
    {arg : String} {name : Option String}
    (hp : q.projections[i]? = some (.aggregate .avg arg name)) :
    ∃ n s, q.derivedColumns[n]? = some ⟨Aggregate.count.call arg, countAlias i⟩ ∧
      q.derivedColumns[s]? = some ⟨Aggregate.sum.call arg, sumAlias i⟩ ∧
      q.foldsFound[i]? = some (.average (q.visibleWidth + n) (q.visibleWidth + s)) ∧
      q.foldsFound[q.visibleWidth + n]? = some .add ∧
      q.foldsFound[q.visibleWidth + s]? = some .add := by
  obtain ⟨n, hn, hnfound⟩ := exists_part hlabels (QueryShape.count_mem hp)
  obtain ⟨s, hs, hsfound⟩ := exists_part hlabels (QueryShape.sum_mem hp)
  have hfolds : foldsOf q.reportedLabels (.aggregate .avg arg name, i) =
      [(q.visibleWidth + n, .add), (q.visibleWidth + s, .add),
        (i, .average (q.visibleWidth + n) (q.visibleWidth + s))] := by
    simp only [foldsOf, hnfound, hsfound, Option.getD_some]
  have hmem : ∀ w ∈ foldsOf q.reportedLabels (.aggregate .avg arg name, i), w ∈ q.foldsWritten :=
    fun w hw => mem_foldsWritten hp hw
  rw [hfolds] at hmem
  have hpart : ∀ {k : Nat} {d : Sql.DerivedColumn}, q.derivedColumns[k]? = some d →
      (q.visibleWidth + k, .add) ∈ q.foldsWritten →
      q.foldsFound[q.visibleWidth + k]? = some .add := fun hd hmem =>
    foldsFound_of_mem (QueryShape.getElem?_reported_derived hd) hmem fun f h =>
      (derived_written hlabels h).1
  refine ⟨n, s, hn, hs, ?_, hpart hn (hmem _ (by simp)), hpart hs (hmem _ (by simp))⟩
  refine foldsFound_of_mem (QueryShape.getElem?_reported_visible hp) (hmem _ (by simp))
    fun f h => ?_
  have hlt : i < q.projections.length := (List.getElem?_eq_some_iff.1 hp).1
  have hwidth : q.visibleWidth = q.projections.length := rfl
  have hcases := visible_written hlabels hp h
  rw [hfolds] at hcases
  simp only [List.mem_cons, Prod.mk.injEq, List.not_mem_nil, or_false] at hcases
  rcases hcases with ⟨hi, -⟩ | ⟨hi, -⟩ | ⟨-, rfl⟩
  · omega
  · omega
  · rfl

theorem folds_foldsFound (hlabels : q.Labelled) :
    q.Folds q.foldsFound where
  column i expression name hp := by
    refine foldsFound_of_not_mem (QueryShape.getElem?_reported_visible hp) fun f h => ?_
    exact absurd (visible_written hlabels hp h) List.not_mem_nil
  count i arg name hp := foldsFound_own hlabels hp rfl
  sum i arg name hp := foldsFound_own hlabels hp rfl
  max i arg name hp := foldsFound_own hlabels hp rfl
  min i arg name hp := foldsFound_own hlabels hp rfl
  average i arg name hp := foldsFound_average hlabels hp
  hidden k d hd hhidden := by
    refine foldsFound_of_not_mem (QueryShape.getElem?_reported_derived hd) fun f h => ?_
    obtain ⟨-, d', hd', hpart⟩ := derived_written hlabels h
    cases hd.symm.trans hd'
    exact hhidden hpart

theorem columnFolds_eq (hlabels : q.Labelled) :
    columnFolds q q.reportedLabels = .ok q.foldsFound := by
  refine foldlM_foldOfProjection (fun p hp arg name havg => ?_) _
  obtain ⟨p, i⟩ := p
  obtain rfl : p = .aggregate .avg arg name := havg
  have hp := List.mk_mem_zipIdx_iff_getElem?.1 hp
  obtain ⟨n, -, hn⟩ := exists_part hlabels (QueryShape.count_mem hp)
  obtain ⟨s, -, hs⟩ := exists_part hlabels (QueryShape.sum_mem hp)
  exact ⟨Option.isSome_of_eq_some hn, Option.isSome_of_eq_some hs⟩

end Reported

end Query

/-! ## The plan -/

theorem agreedColumns_eq {columns : List String} {first : Source} {rest : List Source}
    (h : ∀ s ∈ first :: rest, s.columns = columns) :
    agreedColumns (first :: rest) = .ok columns := by
  have hfirst := h first List.mem_cons_self
  have hsame : (rest.zipIdx.find? fun p => !sameColumns p.1.columns first.columns) = none := by
    rw [List.find?_eq_none]
    rintro ⟨s, i⟩ hs
    have hcolumns := h s (List.mem_cons_of_mem _ (List.fst_mem_of_mem_zipIdx hs))
    dsimp only
    rw [hcolumns, hfirst, sameColumns, beq_self_eq_true]
    exact Bool.false_ne_true
  rw [agreedColumns]
  split
  · next h => rw [hsame] at h; cases h
  · rw [hfirst]

section Success

variable {maxRows : Nat}

/-- Groups are merged for a grouped query, by the folds of its projections. -/
theorem of_mergeKind_grouped {q : QueryShape} {columns : List String} {width : Option Nat}
    {plan : GroupPlan} (h : mergeKind maxRows q columns width = .ok (.grouped plan)) :
    q.isGrouped = true ∧ columnFolds q columns = .ok plan.folds ∧ plan.width = width := by
  rw [mergeKind] at h
  split at h
  next hgrouped =>
    obtain ⟨orderKeys, -, h⟩ := exists_of_bind_eq_ok h
    obtain ⟨groupKeys, -, h⟩ := exists_of_bind_eq_ok h
    obtain ⟨folds, hfolds, h⟩ := exists_of_bind_eq_ok h
    cases h
    exact ⟨hgrouped, hfolds, rfl⟩
  next =>
    split at h
    next => cases h
    next =>
      obtain ⟨keys, -, h⟩ := exists_of_bind_eq_ok h
      cases h

/-- The plan of a select says how many columns are seen, how the rows are merged, and which page is
read. -/
theorem of_planMerge_select {q : Query} {sources : List Source} {plan : MergePlan}
    (hselect : q.kind = .select) (h : planMerge maxRows (.query q) sources = .ok plan) :
    visibleWidth? q.shape plan.columns = .ok plan.width ∧
      mergeKind maxRows q.shape plan.columns plan.width = .ok plan.kind ∧
      plan.page = q.shape.page := by
  obtain ⟨columns, -, h⟩ := exists_of_bind_eq_ok h
  dsimp only at h
  rw [hselect] at h
  obtain ⟨width, hwidth, h⟩ := exists_of_bind_eq_ok h
  obtain ⟨kind, hkind, h⟩ := exists_of_bind_eq_ok h
  cases h
  exact ⟨hwidth, hkind, rfl⟩

end Success

/-- The rows of a select are merged by columns that are found. -/
theorem mergeKind_planned {q : QueryShape} (maxRows : Nat)
    (hlabels : q.Labelled) (hstar : q.projections ≠ []) :
    ∃ kind, mergeKind maxRows q q.reportedLabels (some q.visibleWidth) = .ok kind ∧
      q.Planned maxRows kind := by
  obtain ⟨orderKeys, horder, hfindsOrder⟩ :=
    sortKeys_finds hlabels hstar fun item (h : item ∈ q.orderBy) => .inr h
  obtain ⟨groupKeys, hgroup, hfindsGroup⟩ :=
    sortKeys_finds hlabels hstar fun item (h : item ∈ q.groupBy) => .inl h
  cases hgrouped : q.isGrouped with
  | true =>
    refine ⟨.grouped ⟨groupKeys, orderKeys, q.foldsFound, some q.visibleWidth, maxRows⟩, ?_,
      hgrouped, hfindsOrder, hfindsGroup, folds_foldsFound hlabels, rfl, rfl⟩
    rw [mergeKind, if_pos hgrouped, horder, hgroup, columnFolds_eq hlabels]
    rfl
  | false =>
    have hungrouped : ¬ q.isGrouped = true := hgrouped ▸ Bool.false_ne_true
    by_cases hunordered : q.orderBy = []
    · refine ⟨.concat, ?_, hgrouped, hunordered⟩
      rw [mergeKind, if_neg hungrouped, if_pos (List.isEmpty_iff.2 hunordered)]
    · refine ⟨.ordered orderKeys, ?_, hgrouped, hunordered, hfindsOrder⟩
      rw [mergeKind, if_neg hungrouped, if_neg (mt List.isEmpty_iff.1 hunordered), horder]
      rfl

/-- If every shard reports the visible columns and then the derived ones, the plan finds them. -/
theorem planMerge_planned (maxRows : Nat) {q : Query} (hselect : q.kind = .select)
    (hstar : q.shape.projections ≠ []) (hlabels : q.shape.Labelled) {first : Source}
    {rest : List Source} (hcolumns : ∀ s ∈ first :: rest, s.columns = q.shape.reportedLabels) :
    ∃ kind, q.shape.Planned maxRows kind ∧ planMerge maxRows (.query q) (first :: rest) =
      .ok ⟨q.shape.reportedLabels, kind, some q.shape.visibleWidth, q.shape.page⟩ := by
  obtain ⟨kind, hkind, hplanned⟩ := mergeKind_planned maxRows hlabels hstar
  refine ⟨kind, hplanned, ?_⟩
  have hwidth : visibleWidth? q.shape q.shape.reportedLabels = .ok (some q.shape.visibleWidth) := by
    have hlength : q.shape.visibleLabels.length = q.shape.visibleWidth := List.length_map _
    have henough : ¬ q.shape.reportedLabels.length < q.shape.visibleWidth := by
      rw [QueryShape.reportedLabels, List.length_append, hlength]
      omega
    rw [visibleWidth?, if_neg (mt List.isEmpty_iff.1 hstar), if_neg henough]
  have hagreed : agreedColumns (first :: rest) = .ok q.shape.reportedLabels :=
    agreedColumns_eq hcolumns
  simp only [planMerge, hagreed, hselect, bind, Except.bind, hwidth, hkind]
  rfl

/-- If every shard reports the visible columns and then the derived ones, and no two labels are the
same, the plan of the merge exists and finds each of them.  No two aliases of derived columns are
the same. -/
theorem planMerge_finds_derived (maxRows : Nat) (q : Query) (hselect : q.kind = .select)
    (hstar : q.shape.projections ≠ [])
    (hvisible : q.shape.visibleLabels.Pairwise fun a b => ¬ sameName a b)
    (hfree : ∀ a ∈ q.shape.visibleLabels, ∀ b ∈ q.shape.derivedLabels, ¬ sameName a b)
    (first : Source) (rest : List Source)
    (hcolumns : ∀ s ∈ first :: rest, s.columns = q.shape.visibleLabels ++ q.shape.derivedLabels) :
    q.shape.derivedLabels.Pairwise (fun a b => ¬ sameName a b) ∧
      ∃ kind, q.shape.Planned maxRows kind ∧ planMerge maxRows (.query q) (first :: rest) =
        .ok ⟨q.shape.visibleLabels ++ q.shape.derivedLabels, kind, some q.shape.visibleWidth,
          q.shape.page⟩ :=
  ⟨QueryShape.derivedLabels_distinct _, planMerge_planned maxRows hselect hstar
    (QueryShape.labelled_of_visible hvisible hfree) hcolumns⟩

/-- Branches by their average amount, the largest number of sales first. -/
def branchAverages : Query where
  kind := .select
  template := ⟨"SELECT AVG(amount) FROM t_sale GROUP BY branch ORDER BY COUNT(amount) DESC", []⟩
  tables := ["t_sale"]
  conditions := []
  shape :=
    { projections := [.aggregate .avg "amount" none]
      groupBy := [⟨"branch", .asc, .first⟩]
      orderBy := [⟨"COUNT(amount)", .desc, .last⟩] }

theorem planMerge_finds_derived_branches :
    branchAverages.shape.derivedLabels.Pairwise (fun a b => ¬ sameName a b) ∧
      ∃ kind, branchAverages.shape.Planned 10 kind ∧
        planMerge 10 (.query branchAverages)
            [.ofRows branchAverages.shape.reportedLabels [],
              .ofRows branchAverages.shape.reportedLabels []] =
          .ok ⟨branchAverages.shape.visibleLabels ++ branchAverages.shape.derivedLabels, kind,
            some 1, none⟩ :=
  planMerge_finds_derived 10 branchAverages rfl (List.cons_ne_nil _ _) (by decide) (by decide) _ _
    fun s hs => by rcases List.mem_pair.1 hs with rfl | rfl <;> rfl

end Sharding
