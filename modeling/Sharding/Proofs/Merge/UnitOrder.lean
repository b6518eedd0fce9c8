import Sharding.Proofs.Merge.Columns
import Sharding.Proofs.Merge.Gathering

/-!
# Groups in every order of the units

The units of a query answer in no particular order, and so do the rows of each.  A merge of groups
that succeeds for two orders answers the same groups with the same counts and sums, and with
greatest and least values that stand for the same numbers (`unit_order_keeps_aggregates`).

An average is the same, too, if the columns that its plan takes for its parts add up.  The plan
finds these columns by their labels, and a projection may have such a label for a name.  When an
average itself is named so, the plan takes it for its own count, and what the first row has in it
decides (`unit_order_changes_average`).
-/

namespace Sharding

/-! ## The folds of a plan -/

/-- How the column of a projection may be folded.  A column that a later average takes for one of
its parts adds up. -/
def Projection.MayFold : Projection → ColumnFold → Prop
  | .column _ _, _ => True
  | .aggregate .count _ _, f | .aggregate .sum _ _, f => f = .add
  | .aggregate .max _ _, f => f = .max ∨ f = .add
  | .aggregate .min _ _, f => f = .min ∨ f = .add
  | .aggregate .avg _ _, f => (∃ count sum, f = .average count sum) ∨ f = .add

theorem Projection.mayFold_add (p : Projection) : p.MayFold .add := by
  cases p with
  | column expression name => trivial
  | aggregate f arg name =>
    cases f with
    | count => exact rfl
    | sum => exact rfl
    | _ => exact .inr rfl

section Folds

variable {columns : List String} {folds folds' : List ColumnFold} {p : Projection} {i k : Nat}

/-- A projection notes a fold of its own, and makes other columns add up at most. -/
theorem foldOfProjection_step (h : foldOfProjection columns folds (p, k) = .ok folds') :
    folds'.length = folds.length ∧ (k < folds.length → ∃ f, folds'[k]? = some f ∧ p.MayFold f) ∧
      ∀ i ≠ k, i < folds.length → folds'[i]? = folds[i]? ∨ folds'[i]? = some .add := by
  have hset : ∀ f, p.MayFold f → (folds.set k f).length = folds.length ∧
      (k < folds.length → ∃ f', (folds.set k f)[k]? = some f' ∧ p.MayFold f') ∧
      ∀ i ≠ k, i < folds.length →
        (folds.set k f)[i]? = folds[i]? ∨ (folds.set k f)[i]? = some .add := fun f hf =>
    ⟨List.length_set, fun hk => ⟨f, List.getElem?_set_self hk, hf⟩,
      fun i hi _ => .inl (List.getElem?_set_ne hi.symm)⟩
  cases p with
  | column expression name =>
    cases h
    exact ⟨rfl, fun hk => ⟨_, List.getElem?_eq_getElem hk, trivial⟩, fun i _ _ => .inl rfl⟩
  | aggregate function arg name =>
    cases function with
    | count => cases h; exact hset _ rfl
    | sum => cases h; exact hset _ rfl
    | max => cases h; exact hset _ (.inl rfl)
    | min => cases h; exact hset _ (.inl rfl)
    | avg =>
      obtain ⟨count, -, h⟩ := exists_of_bind_eq_ok h
      obtain ⟨sum, -, h⟩ := exists_of_bind_eq_ok h
      cases h
      refine ⟨by simp only [List.length_set], fun hk => ⟨.average count sum, ?_, .inl ⟨_, _, rfl⟩⟩,
        fun i hi hlt => ?_⟩
      · exact List.getElem?_set_self (by simpa only [List.length_set] using hk)
      · rw [List.getElem?_set_ne hi.symm]
        by_cases hsum : sum = i
        · subst hsum
          exact .inr (List.getElem?_set_self (by rwa [List.length_set]))
        · rw [List.getElem?_set_ne hsum]
          by_cases hcount : count = i
          · subst hcount
            exact .inr (List.getElem?_set_self hlt)
          · exact .inl (List.getElem?_set_ne hcount)

theorem foldOfProjection_run {projections : List Projection}
    (h : projections.zipIdx.foldlM (foldOfProjection columns) folds = .ok folds') :
    folds'.length = folds.length ∧ ∀ i p, projections[i]? = some p → i < folds.length →
      ∃ f, folds'[i]? = some f ∧ p.MayFold f := by
  induction projections using List.reverseRecOn generalizing folds' with
  | nil =>
    cases h
    exact ⟨rfl, fun i p hp => by cases hp⟩
  | append_singleton projections last ih =>
    rw [List.zipIdx_append, List.foldlM_append] at h
    obtain ⟨before, hbefore, h⟩ := exists_of_bind_eq_ok h
    rw [List.zipIdx_singleton, List.foldlM_cons] at h
    obtain ⟨after, hafter, h⟩ := exists_of_bind_eq_ok h
    cases h
    obtain ⟨hlength, hfolded⟩ := ih hbefore
    obtain ⟨hlength', hlast, hothers⟩ := foldOfProjection_step hafter
    rw [Nat.zero_add, hlength] at hlast hothers
    refine ⟨hlength'.trans hlength, fun i p hp hi => ?_⟩
    rcases Nat.lt_or_ge i projections.length with hlt | hge
    · rw [List.getElem?_append_left hlt] at hp
      obtain ⟨f, hf, hmay⟩ := hfolded i p hp hi
      rcases hothers i (Nat.ne_of_lt hlt) hi with hsame | hadd
      · exact ⟨f, hsame.trans hf, hmay⟩
      · exact ⟨.add, hadd, p.mayFold_add⟩
    · have hlt := (List.getElem?_eq_some_iff.1 hp).1
      rw [List.length_append, List.length_singleton] at hlt
      obtain rfl : i = projections.length := by omega
      rw [List.getElem?_concat_length] at hp
      cases hp
      exact hlast hi

end Folds

section Plan

variable {maxRows : Nat} {q : Query} {planned : List Source} {merge : MergePlan} {plan : GroupPlan}

/-- A plan of groups has the folds of its projections and shows the columns of these. -/
theorem planMerge_grouped (h : planMerge maxRows (.query q) planned = .ok merge)
    (hgrouped : merge.kind = .grouped plan) :
    columnFolds q.shape merge.columns = .ok plan.folds ∧
      visibleWidth? q.shape merge.columns = .ok plan.width := by
  cases hkind : q.kind with
  | administration =>
    obtain ⟨columns, -, h⟩ := exists_of_bind_eq_ok h
    dsimp only at h
    rw [hkind] at h
    cases h
    cases hgrouped
  | select =>
    obtain ⟨hwidth, hmerge, -⟩ := of_planMerge_select hkind h
    rw [hgrouped] at hmerge
    obtain ⟨-, hfolds, hsame⟩ := of_mergeKind_grouped hmerge
    exact ⟨hfolds, hsame ▸ hwidth⟩

/-- Each projection has a column of its own that the caller sees, and its fold. -/
theorem planMerge_projection {i : Nat} {p : Projection}
    (h : planMerge maxRows (.query q) planned = .ok merge) (hgrouped : merge.kind = .grouped plan)
    (hp : q.shape.projections[i]? = some p) :
    (∃ f, plan.folds[i]? = some f ∧ p.MayFold f) ∧
      ∀ row : Row, (cutTo plan.width row)[i]? = row[i]? := by
  obtain ⟨hfolds, hwidth⟩ := planMerge_grouped h hgrouped
  have hi : i < q.shape.projections.length := (List.getElem?_eq_some_iff.1 hp).1
  have hsome : ¬ q.shape.projections.isEmpty := by
    rw [List.isEmpty_iff]
    rintro hnil
    rw [hnil] at hi
    exact Nat.not_lt_zero _ hi
  rw [visibleWidth?, if_neg hsome] at hwidth
  split at hwidth
  next => cases hwidth
  next hcolumns =>
    have hvisible : q.shape.visibleWidth = q.shape.projections.length := rfl
    refine ⟨(foldOfProjection_run hfolds).2 i p hp ?_, fun row => ?_⟩
    · rw [List.length_map]
      omega
    · rw [← Except.ok.inj hwidth]
      exact List.getElem?_take_of_lt hi

end Plan

/-! ## Rows in another order -/

/-- The rows of some units, with the units and the rows of each in another order. -/
def Reordered (partials partials' : List (List Row)) : Prop :=
  ∃ moved : List (List Row), moved.Perm partials ∧ List.Forall₂ List.Perm moved partials'

theorem Reordered.flatten_perm {partials partials' : List (List Row)}
    (h : Reordered partials partials') : partials'.flatten.Perm partials.flatten := by
  obtain ⟨moved, hmoved, hrows⟩ := h
  exact (List.Perm.flatten_congr hrows).symm.trans hmoved.flatten

namespace GroupPlan

/-- The values that are folded into groups stay in 128 bits when they are brought to one scale. -/
def Aligned (plan : GroupPlan) (rows : List Row) : Prop :=
  ∀ row ∈ rows, AlignedGroup plan.folds (rowsUnder plan rows (groupKey plan.keyColumns row))

instance (plan : GroupPlan) (rows : List Row) : Decidable (plan.Aligned rows) :=
  inferInstanceAs (Decidable (∀ row ∈ rows, _))

/-- An average, if a column holds one, is computed from two columns that add up. -/
def PartsAdd (plan : GroupPlan) (i : Nat) : Prop :=
  ∀ count sum, plan.folds[i]? = some (.average count sum) →
    plan.folds[count]? = some .add ∧ plan.folds[sum]? = some .add

/-- Two orders agree on the values of a projection: counts, sums and averages are the same, and
extremes stand for one number. -/
def Agrees (plan : GroupPlan) (i : Nat) (p : Projection) (a b : Datum) : Prop :=
  match p with
  | .column _ _ => True
  | .aggregate .count _ _ | .aggregate .sum _ _ => a = b
  | .aggregate .max _ _ | .aggregate .min _ _ => a.SameNumber b
  | .aggregate .avg _ _ => plan.PartsAdd i → a = b

end GroupPlan

section Orders

variable {plan : GroupPlan} {rows rows' : List Row} {key : List UInt8} {out out' : Row} {n i : Nat}

theorem foldAt_eq {f : ColumnFold} (h : plan.folds[i]? = some f) : foldAt plan.folds i = f := by
  rw [foldAt, h]
  rfl

/-- The answer to a key has the finished row of its group, as far as it is seen. -/
theorem column_answerAt (hcut : ∀ row : Row, (cutTo plan.width row)[i]? = row[i]?)
    (h : foldGroup plan.folds (rowsUnder plan rows key) = .ok out) :
    (plan.answerAt rows key).column i = (finishRow plan.folds out).column i := by
  rw [GroupPlan.answerAt, groupAt_eq h, Row.column, hcut]
  rfl

/-- Averages of rows of one width are the same, if their parts are. -/
theorem column_finishRow_average {count sum : Nat} (hlength : out.length = out'.length)
    (hi : plan.folds[i]? = some (.average count sum)) (hparts : plan.PartsAdd i)
    (hcount : out.column count = out'.column count) (hsum : out.column sum = out'.column sum) :
    (finishRow plan.folds out).column i = (finishRow plan.folds out').column i := by
  obtain ⟨haddCount, haddSum⟩ := hparts count sum hi
  have hnoCount : ∀ n s, plan.folds[count]? ≠ some (.average n s) := by simp [haddCount]
  have hnoSum : ∀ n s, plan.folds[sum]? ≠ some (.average n s) := by simp [haddSum]
  have hthere : ∀ d : Datum, (out[i]?.map fun _ => d) = out'[i]?.map fun _ => d := by
    intro d
    rcases Nat.lt_or_ge i out.length with hlt | hge
    · rw [List.getElem?_eq_getElem hlt, List.getElem?_eq_getElem (hlength ▸ hlt)]
      rfl
    · rw [List.getElem?_eq_none hge, List.getElem?_eq_none (hlength ▸ hge)]
  rw [Row.column, Row.column, getElem?_finishRow_average out hi hnoCount hnoSum,
    getElem?_finishRow_average out' hi hnoCount hnoSum, getElem?_eq_of_column hlength hcount,
    getElem?_eq_of_column hlength hsum, hthere]

/-- Where the folds of all columns agree, so do the values of each projection. -/
theorem agrees_finishRow {p : Projection} {f : ColumnFold} (hlength : out.length = out'.length)
    (hagree : ∀ j, (foldAt plan.folds j).Agree (out.column j) (out'.column j))
    (hf : plan.folds[i]? = some f) (hmay : p.MayFold f) :
    plan.Agrees i p ((finishRow plan.folds out).column i)
      ((finishRow plan.folds out').column i) := by
  -- A column that is no average is left as it was folded.
  have hkept : (∀ count sum, f ≠ .average count sum) → ∀ row : Row,
      (finishRow plan.folds row).column i = row.column i := fun hnone row => by
    rw [Row.column, Row.column, getElem?_finishRow row fun count sum heq =>
      hnone count sum (Option.some.inj (hf.symm.trans heq))]
  have hsame : f = .add → (finishRow plan.folds out).column i =
      (finishRow plan.folds out').column i := by
    rintro rfl
    have hnone : ∀ count sum, ColumnFold.add ≠ .average count sum := fun _ _ heq => by cases heq
    rw [hkept hnone, hkept hnone]
    exact (hagree i).sum (foldAt_eq hf)
  have hnumber : f.Combines → ((finishRow plan.folds out).column i).SameNumber
      ((finishRow plan.folds out').column i) := by
    intro hcombines
    have hnone : ∀ count sum, f ≠ .average count sum := by
      rintro count sum rfl
      exact hcombines
    rw [hkept hnone, hkept hnone]
    exact (hagree i).number (foldAt_eq hf ▸ hcombines)
  cases p with
  | column expression name => trivial
  | aggregate function arg name =>
    cases function with
    | count => exact hsame hmay
    | sum => exact hsame hmay
    | max => exact hnumber (by rcases hmay with rfl | rfl <;> trivial)
    | min => exact hnumber (by rcases hmay with rfl | rfl <;> trivial)
    | avg =>
      intro hparts
      rcases hmay with ⟨count, sum, rfl⟩ | hadd
      · obtain ⟨hcount, hsum⟩ := hparts count sum hf
        exact column_finishRow_average hlength hf hparts
          ((hagree count).sum (foldAt_eq hcount)) ((hagree sum).sum (foldAt_eq hsum))
      · exact hsame hadd

/-- Two orders of the rows agree on the answer to a key. -/
theorem agrees_answerAt {p : Projection} (hperm : rows'.Perm rows)
    (hwidth : ∀ row ∈ rows, row.length = n)
    (hcountable : ∀ row ∈ rows, CountableColumns plan.folds row)
    (haligned : plan.Aligned rows) (haligned' : plan.Aligned rows')
    (hfoldable : Foldable plan rows) (hfoldable' : Foldable plan rows')
    (hkey : key ∈ rows.map (groupKey plan.keyColumns))
    (hfold : ∃ f, plan.folds[i]? = some f ∧ p.MayFold f)
    (hcut : ∀ row : Row, (cutTo plan.width row)[i]? = row[i]?) :
    plan.Agrees i p ((plan.answerAt rows key).column i) ((plan.answerAt rows' key).column i) := by
  obtain ⟨out, hout⟩ := hfoldable key
  obtain ⟨out', hout'⟩ := hfoldable' key
  obtain ⟨f, hf, hmay⟩ := hfold
  have hunder : (rowsUnder plan rows' key).Perm (rowsUnder plan rows key) := hperm.filter _
  have hmem : ∀ row ∈ rowsUnder plan rows key, row ∈ rows := fun row hrow =>
    List.mem_of_mem_filter hrow
  have hne : rowsUnder plan rows key ≠ [] := fun hnil => rowsUnder_eq_nil_iff.1 hnil hkey
  obtain ⟨row, hrow, rfl⟩ := List.mem_map.1 hkey
  obtain ⟨hlength, hagree⟩ := foldGroup_agree hunder hne (fun r hr => hwidth r (hmem r hr))
    (fun r hr => hcountable r (hmem r hr)) (haligned row hrow)
    (haligned' row (hperm.mem_iff.2 hrow)) hout hout'
  rw [column_answerAt hcut hout, column_answerAt hcut hout']
  exact agrees_finishRow hlength hagree hf hmay

end Orders

/-- Where no two labels are the same, the parts of averages add up. -/
theorem partsAdd_of_labels {q : Query} (hselect : q.kind = .select)
    (hstar : q.shape.projections ≠ [])
    (hvisible : q.shape.visibleLabels.Pairwise fun a b => ¬ sameName a b)
    (hfree : ∀ a ∈ q.shape.visibleLabels, ∀ b ∈ q.shape.derivedLabels, ¬ sameName a b)
    {maxRows : Nat} {first : Source} {rest : List Source}
    (hcolumns : ∀ s ∈ first :: rest,
      s.columns = q.shape.visibleLabels ++ q.shape.derivedLabels)
    {merge : MergePlan} {plan : GroupPlan}
    (hplan : planMerge maxRows (.query q) (first :: rest) = .ok merge)
    (hgrouped : merge.kind = .grouped plan) {i : Nat} {arg : String} {name : Option String}
    (hp : q.shape.projections[i]? = some (.aggregate .avg arg name)) : plan.PartsAdd i := by
  have hlabels := QueryShape.labelled_of_visible hvisible hfree
  obtain ⟨kind, hplanned, hkind⟩ := planMerge_planned maxRows hselect hstar hlabels hcolumns
  cases hkind.symm.trans hplan
  obtain rfl : kind = .grouped plan := hgrouped
  obtain ⟨-, -, -, hfolds, -, -⟩ := hplanned
  obtain ⟨n, s, -, -, hi, hcount, hsum⟩ := hfolds.average i arg name hp
  intro count sum heq
  cases hi.symm.trans heq
  exact ⟨hcount, hsum⟩

/-- A merge of groups that succeeds for two orders of the units and of their rows answers the same
groups.  Their counts and sums are the same, and so are the averages whose parts add up; their
extremes stand for the same numbers. -/
theorem unit_order_keeps_aggregates {W : Type} (closer : Closer W) {w w' : W} {maxRows : Nat}
    {q : Query} {planned : List Source} {merge : MergePlan} {plan : GroupPlan}
    (hplan : planMerge maxRows (.query q) planned = .ok merge)
    (hgrouped : merge.kind = .grouped plan) {partials partials' : List (List Row)}
    (hreordered : Reordered partials partials') {sources sources' : List Source}
    (hsources : List.Forall₂ Source.Delivers partials sources)
    (hsources' : List.Forall₂ Source.Delivers partials' sources') {n : Nat}
    (hwidth : ∀ row ∈ partials.flatten, row.length = n)
    (hcountable : ∀ row ∈ partials.flatten, CountableColumns plan.folds row)
    (haligned : plan.Aligned partials.flatten) (haligned' : plan.Aligned partials'.flatten)
    {out out' : Source}
    (hmerged : (mergeGroups closer merge.columns plan sources w).1 = .ok out)
    (hmerged' : (mergeGroups closer merge.columns plan sources' w').1 = .ok out') :
    ∃ (keys : List (List UInt8)) (rows rows' : List Row),
      keys.Nodup ∧ (∀ key, key ∈ keys ↔ ∃ row ∈ partials.flatten,
        groupKey plan.keyColumns row = key) ∧
      out = .ofRows (cutTo plan.width merge.columns) rows ∧
      rows.Perm (keys.map (plan.answerAt partials.flatten)) ∧
      out' = .ofRows (cutTo plan.width merge.columns) rows' ∧
      rows'.Perm (keys.map (plan.answerAt partials'.flatten)) ∧
      ∀ key ∈ keys, ∀ i p, q.shape.projections[i]? = some p →
        plan.Agrees i p ((plan.answerAt partials.flatten key).column i)
          ((plan.answerAt partials'.flatten key).column i) := by
  have hperm := hreordered.flatten_perm
  obtain ⟨hfoldable, rows, hout, hrows⟩ := mergeGroups_answers hsources hmerged
  obtain ⟨hfoldable', rows', hout', hrows'⟩ := mergeGroups_answers hsources' hmerged'
  have hkeys : (distinct (partials'.flatten.map (groupKey plan.keyColumns))).Perm
      (distinct (partials.flatten.map (groupKey plan.keyColumns))) := by
    refine (List.perm_ext_iff_of_nodup (nodup_distinct _) (nodup_distinct _)).2 fun key => ?_
    rw [mem_distinct, mem_distinct, (hperm.map _).mem_iff]
  refine ⟨distinct (partials.flatten.map (groupKey plan.keyColumns)), rows, rows',
    nodup_distinct _, fun key => mem_distinct.trans List.mem_map, hout, hrows, hout',
    hrows'.trans (hkeys.map _), fun key hkey i p hp => ?_⟩
  obtain ⟨hfold, hcut⟩ := planMerge_projection hplan hgrouped hp
  exact agrees_answerAt hperm hwidth hcountable haligned haligned' hfoldable hfoldable'
    (mem_distinct.1 hkey) hfold hcut

/-- What each branch sold. -/
def branchTotals : Query where
  kind := .select
  template := ⟨"SELECT branch, COUNT(n), SUM(n), AVG(n), MAX(n) FROM t_sale GROUP BY branch", []⟩
  tables := ["t_sale"]
  conditions := []
  shape :=
    { projections := [.column "branch" none, .aggregate .count "n" none, .aggregate .sum "n" none,
        .aggregate .avg "n" none, .aggregate .max "n" none]
      groupBy := [⟨"branch", .asc, .first⟩]
      orderBy := [] }

/-- How the branches are merged. -/
def branchPlan : GroupPlan where
  groupKeys := [⟨0, .asc, .first⟩]
  orderKeys := []
  folds := [.first, .add, .add, .average 5 6, .max, .add, .add]
  width := some 5
  maxRows := 10

/-- The totals of two branches on two shards.  On one of them the amounts are decimals. -/
def totalsByUnit : List (List Row) :=
  [[[.int32 1, .int64 2, .int64 7, .int64 3, .int64 4, .int64 2, .int64 7],
      [.int32 2, .int64 0, .null, .null, .null, .int64 0, .null]],
    [[.int64 1, .int64 1, .decimal ⟨.wrap 400, 2⟩, .decimal ⟨.wrap 400, 2⟩, .decimal ⟨.wrap 400, 2⟩,
      .int64 1, .decimal ⟨.wrap 400, 2⟩]]]

/-- The same totals, the last shard first, and the rows of the other the other way round. -/
def totalsReversed : List (List Row) :=
  [[[.int64 1, .int64 1, .decimal ⟨.wrap 400, 2⟩, .decimal ⟨.wrap 400, 2⟩, .decimal ⟨.wrap 400, 2⟩,
      .int64 1, .decimal ⟨.wrap 400, 2⟩]],
    [[.int32 2, .int64 0, .null, .null, .null, .int64 0, .null],
      [.int32 1, .int64 2, .int64 7, .int64 3, .int64 4, .int64 2, .int64 7]]]

theorem unit_order_keeps_aggregates_branches :
    ∃ out out' : Source,
      (mergeGroups (fun _ w => (.ok (), w)) branchTotals.shape.reportedLabels branchPlan
        (totalsByUnit.map (.ofRows branchTotals.shape.reportedLabels)) ()).1 = .ok out ∧
      (mergeGroups (fun _ w => (.ok (), w)) branchTotals.shape.reportedLabels branchPlan
        (totalsReversed.map (.ofRows branchTotals.shape.reportedLabels)) ()).1 = .ok out' ∧
      ∃ (keys : List (List UInt8)) (rows rows' : List Row), keys.Nodup ∧
        out = .ofRows (cutTo (some 5) branchTotals.shape.reportedLabels) rows ∧
        rows.Perm (keys.map (branchPlan.answerAt totalsByUnit.flatten)) ∧
        out' = .ofRows (cutTo (some 5) branchTotals.shape.reportedLabels) rows' ∧
        rows'.Perm (keys.map (branchPlan.answerAt totalsReversed.flatten)) ∧
        ∀ key ∈ keys, ∀ a b, branchPlan.answerAt totalsByUnit.flatten key = a →
          branchPlan.answerAt totalsReversed.flatten key = b →
          a.column 1 = b.column 1 ∧ a.column 2 = b.column 2 ∧ a.column 3 = b.column 3 ∧
            (a.column 4).SameNumber (b.column 4) := by
  have hdelivers : ∀ partials : List (List Row), List.Forall₂ Source.Delivers partials
      (partials.map (.ofRows branchTotals.shape.reportedLabels)) := fun partials => by
    rw [List.forall₂_map_right_iff]
    exact List.forall₂_same.2 fun rows _ => Source.delivers_ofRows _ rows
  have hreordered : Reordered totalsByUnit totalsReversed :=
    ⟨[_, _], .swap .., .cons (.refl _) (.cons (.swap ..) .nil)⟩
  have hcolumns : ∀ s ∈ totalsByUnit.map (Source.ofRows branchTotals.shape.reportedLabels),
      s.columns = branchTotals.shape.visibleLabels ++ branchTotals.shape.derivedLabels := by
    intro s hs
    obtain ⟨rows, -, rfl⟩ := List.mem_map.1 hs
    rfl
  have hplan : planMerge 10 (.query branchTotals)
      (totalsByUnit.map (.ofRows branchTotals.shape.reportedLabels)) =
      .ok ⟨branchTotals.shape.reportedLabels, .grouped branchPlan, some 5, none⟩ := rfl
  have haligned : branchPlan.Aligned totalsByUnit.flatten ∧
      branchPlan.Aligned totalsReversed.flatten := by
    decide +kernel
  obtain ⟨out, hmerged⟩ : ∃ out, (mergeGroups (fun _ w => (.ok (), w))
      branchTotals.shape.reportedLabels branchPlan
      (totalsByUnit.map (.ofRows branchTotals.shape.reportedLabels)) ()).1 = .ok out := ⟨_, rfl⟩
  obtain ⟨out', hmerged'⟩ : ∃ out, (mergeGroups (fun _ w => (.ok (), w))
      branchTotals.shape.reportedLabels branchPlan
      (totalsReversed.map (.ofRows branchTotals.shape.reportedLabels)) ()).1 = .ok out := ⟨_, rfl⟩
  obtain ⟨keys, rows, rows', hnodup, -, hout, hrows, hout', hrows', hagree⟩ :=
    unit_order_keeps_aggregates (fun _ w => (.ok (), w)) hplan rfl hreordered (hdelivers _)
      (hdelivers _) (n := 7) (by decide) (by decide) haligned.1 haligned.2 hmerged hmerged'
  refine ⟨out, out', hmerged, hmerged', keys, rows, rows', hnodup, hout, hrows, hout', hrows',
    fun key hkey a b ha hb => ?_⟩
  subst ha hb
  have hparts : branchPlan.PartsAdd 3 :=
    partsAdd_of_labels rfl (List.cons_ne_nil _ _) (by decide) (by decide) hcolumns hplan rfl rfl
  exact ⟨hagree key hkey 1 _ rfl, hagree key hkey 2 _ rfl, hagree key hkey 3 _ rfl hparts,
    hagree key hkey 4 _ rfl⟩

/-- An average under the label that is derived for its own count. -/
def averageNamedAsCount : Query where
  kind := .select
  template := ⟨"SELECT AVG(amount) AS AVG_DERIVED_COUNT_0 FROM t_order", []⟩
  tables := ["t_order"]
  conditions := []
  shape :=
    { projections := [.aggregate .avg "amount" (some "AVG_DERIVED_COUNT_0")]
      groupBy := []
      orderBy := [] }

/-- How the averages are merged: by the average of the first row in place of the count. -/
def averagePlan : GroupPlan where
  groupKeys := []
  orderKeys := []
  folds := [.average 0 2, .first, .add]
  width := some 1
  maxRows := 10

/-- An order of 10 on one shard and an order of 20 on another: average, count and sum. -/
def orderOfTen : List Row :=
  [[.int64 10, .int64 1, .int64 10]]

def orderOfTwenty : List Row :=
  [[.int64 20, .int64 1, .int64 20]]

/-- The sum of 30 is divided by the average of the first unit.  So the average is 3 in one order of
the units and 1.5 in the other, and never 15. -/
theorem unit_order_changes_average :
    let labels := averageNamedAsCount.shape.reportedLabels
    let sources := [Source.ofRows labels orderOfTen, .ofRows labels orderOfTwenty]
    planMerge 10 (.query averageNamedAsCount) sources =
        .ok ⟨labels, .grouped averagePlan, some 1, none⟩ ∧
      (mergeGroups (fun _ w => (.ok (), w)) labels averagePlan sources ()).1 =
        .ok (.ofRows ["AVG_DERIVED_COUNT_0"] [[.float64 (.ofFloat 3.0)]]) ∧
      (mergeGroups (fun _ w => (.ok (), w)) labels averagePlan sources.reverse ()).1 =
        .ok (.ofRows ["AVG_DERIVED_COUNT_0"] [[.float64 (.ofFloat 1.5)]]) ∧
      Datum.float64 (.ofFloat 3.0) ≠ .float64 (.ofFloat 1.5) := by
  have hfirst : averageOf (some (.int64 10)) (some (.int64 30)) = .float64 (.ofFloat 3.0) := by
    decide
  have hlast : averageOf (some (.int64 20)) (some (.int64 30)) = .float64 (.ofFloat 1.5) := by
    decide +kernel
  rw [← hfirst, ← hlast]
  exact ⟨rfl, rfl, rfl, by decide⟩

end Sharding
