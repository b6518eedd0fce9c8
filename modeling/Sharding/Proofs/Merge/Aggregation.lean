import Mathlib.Data.List.Induction
import Mathlib.Data.List.Sublists
import Sharding.Proofs.Merge.Grouping
import Sharding.Proofs.Merge.Reading
import Sharding.Proofs.Merge.RowOrder

/-!
# Aggregation over shards

Merging the partial answers of all shards gives the answer over all base rows.  What is left to
show after the loop has gathered the groups is that finishing a row computes the averages and
nothing else (`finishRow_getElem?`), and that the finished rows can be put in order, since an
aggregate is NULL, an integer or a float that is no NaN (`comparable_answers`).
-/

namespace Sharding

variable {β : Type} {columns : List (OutputColumn β)} {indices : List Nat} {plan : GroupPlan}

/-! ## Finishing a row -/

theorem finishRow_append (folds : List ColumnFold) (f : ColumnFold) (row : Row) :
    finishRow (folds ++ [f]) row =
      match f with
      | .average n s => (finishRow folds row).set folds.length
          (averageOf (finishRow folds row)[n]? (finishRow folds row)[s]?)
      | _ => finishRow folds row := by
  rw [finishRow, List.zipIdx_append, List.foldl_append, Nat.zero_add, List.zipIdx_singleton]
  rfl

theorem length_finishRow (folds : List ColumnFold) (row : Row) :
    (finishRow folds row).length = row.length := by
  induction folds using List.reverseRecOn with
  | nil => rfl
  | append_singleton folds f ih =>
    rw [finishRow_append]
    split
    · rw [List.length_set, ih]
    · exact ih

/-- No average is computed from an average. -/
def AveragesOnly (folds : List ColumnFold) : Prop :=
  ∀ n s, .average n s ∈ folds → ∀ n' s',
    folds[n]? ≠ some (.average n' s') ∧ folds[s]? ≠ some (.average n' s')

theorem AveragesOnly.init {folds : List ColumnFold} {f : ColumnFold}
    (h : AveragesOnly (folds ++ [f])) : AveragesOnly folds := by
  intro n s hmem n' s'
  have hinit : ∀ {i : Nat} {g : ColumnFold}, folds[i]? = some g → (folds ++ [f])[i]? = some g := by
    intro i g hg
    rw [List.getElem?_append_left (List.getElem?_eq_some_iff.1 hg).1, hg]
  have hnone := h n s (List.mem_append_left _ hmem) n' s'
  exact ⟨fun hn => hnone.1 (hinit hn), fun hs => hnone.2 (hinit hs)⟩

/-- Finishing a row replaces each average by what the columns it names hold. -/
theorem finishRow_getElem? {folds : List ColumnFold} (row : Row) (h : AveragesOnly folds)
    (j : Nat) :
    (finishRow folds row)[j]? =
      match folds[j]? with
      | some (.average n s) => row[j]?.map fun _ => averageOf row[n]? row[s]?
      | _ => row[j]? := by
  induction folds using List.reverseRecOn generalizing j with
  | nil => rfl
  | append_singleton folds f ih =>
    have ih := fun j => ih h.init j
    have hother : ∀ {i : Nat}, (∀ n s, folds[i]? ≠ some (.average n s)) →
        (finishRow folds row)[i]? = row[i]? := by
      intro i hi
      rw [ih i]
      split
      · rename_i hsome
        exact absurd hsome (hi _ _)
      · rfl
    rw [finishRow_append]
    by_cases hj : j = folds.length
    · subst hj
      have hlast : (finishRow folds row)[folds.length]? = row[folds.length]? :=
        hother fun _ _ => by simp
      rw [List.getElem?_concat_length]
      cases f with
      | average n s =>
        have hparts := h n s (List.mem_append_right _ List.mem_cons_self)
        have hinit : ∀ {i : Nat}, (∀ n' s', (folds ++ [.average n s])[i]? ≠
            some (.average n' s')) → (finishRow folds row)[i]? = row[i]? := by
          intro i hi
          refine hother fun n' s' hsome => hi n' s' ?_
          rw [List.getElem?_append_left (List.getElem?_eq_some_iff.1 hsome).1, hsome]
        dsimp only
        rw [List.getElem?_set_self', hlast, hinit fun n' s' => (hparts n' s').1,
          hinit fun n' s' => (hparts n' s').2]
        rfl
      | _ => exact hlast
    · have hsame : (folds ++ [f])[j]? = folds[j]? := by
        rcases Nat.lt_or_gt_of_ne hj with hlt | hgt
        · exact List.getElem?_append_left hlt
        · rw [List.getElem?_eq_none (Nat.le_of_lt hgt), List.getElem?_eq_none]
          rw [List.length_append, List.length_singleton]
          exact hgt
      rw [hsame, ← ih j]
      split
      · exact List.getElem?_set_ne (Ne.symm hj)
      · rfl

theorem rowOf_iff {holds : Prop → OutputColumn β → List β → Datum → Prop} {bs : List β}
    {row : Row} : RowOf holds columns indices bs row ↔
      columns.length = row.length ∧ ∀ (i : Nat) (c : OutputColumn β) (d : Datum),
        columns[i]? = some c → row[i]? = some d → holds (indices ≠ []) c bs d := by
  rw [RowOf, List.forall₂_iff_get]
  refine and_congr_right fun _ => ⟨fun h i c d hc hd => ?_, fun h i hc hd => ?_⟩
  · obtain ⟨hi, rfl⟩ := List.getElem?_eq_some_iff.1 hc
    obtain ⟨hi', rfl⟩ := List.getElem?_eq_some_iff.1 hd
    exact h i hi hi'
  · exact h i _ _ (List.getElem?_eq_getElem hc) (List.getElem?_eq_getElem hd)

namespace Describes

theorem getElem?_folds (h : Describes columns plan) {i : Nat} {c : OutputColumn β}
    (hc : columns[i]? = some c) : plan.folds[i]? = some c.kind.fold := by
  rw [h.folds, List.getElem?_map, hc]
  rfl

theorem averagesOnly (h : Describes columns plan) : AveragesOnly plan.folds := by
  intro n s hmem n' s'
  rw [h.folds, List.mem_map] at hmem
  obtain ⟨c, hc, hfold⟩ := hmem
  have hkind : c.kind = .average n s := by
    cases hkind : c.kind with
    | average n' s' =>
      rw [hkind] at hfold
      cases hfold
      rfl
    | _ =>
      rw [hkind] at hfold
      cases hfold
  obtain ⟨hn, hs⟩ := h.averages c hc n s hkind
  rw [h.getElem?_folds hn, h.getElem?_folds hs]
  constructor <;> intro hfold <;> cases hfold

/-- Only averages are changed when a row is finished. -/
theorem finishRow_of_ne (h : Describes columns plan) {i : Nat} {c : OutputColumn β} (row : Row)
    (hc : columns[i]? = some c) (hkind : ∀ n s, c.kind ≠ .average n s) :
    (finishRow plan.folds row)[i]? = row[i]? := by
  rw [finishRow_getElem? row h.averagesOnly, h.getElem?_folds hc]
  cases hc : c.kind with
  | average n s => exact absurd hc (hkind n s)
  | _ => rfl

/-- A finished row has the key that it had before. -/
theorem groupKey_finishRow (h : Describes columns plan) (row : Row) :
    groupKey plan.keyColumns (finishRow plan.folds row) = groupKey plan.keyColumns row := by
  refine groupKey_congr fun i hi => ?_
  obtain ⟨c, hc, hkind⟩ := h.keys i hi
  rw [Row.column, Row.column, h.finishRow_of_ne row hc fun n s => by simp [hkind]]

/-- The partial values of a group, finished, are its totals. -/
theorem total_finishRow (h : Describes columns plan) {bs : List β} {row : Row}
    (hnumeric : ∀ c ∈ columns, c.Numeric bs) (hfits : ∀ c ∈ columns, c.Fits bs)
    (hrow : RowOf OutputColumn.Partial columns indices bs row) :
    RowOf OutputColumn.Total columns indices bs (finishRow plan.folds row) := by
  rw [rowOf_iff] at hrow ⊢
  obtain ⟨hlength, hvalues⟩ := hrow
  refine ⟨hlength.trans (length_finishRow plan.folds row).symm, fun i c d hc hd => ?_⟩
  have hother : (∀ n s, c.kind ≠ .average n s) → c.Partial (indices ≠ []) bs d := by
    intro hkind
    rw [h.finishRow_of_ne row hc hkind] at hd
    exact hvalues i c d hc hd
  unfold OutputColumn.Total
  cases hkind : c.kind with
  | average n s =>
    obtain ⟨hn, hs⟩ := h.averages c (List.mem_of_getElem? hc) n s hkind
    have hvalue : ∀ {j : Nat} {c' : OutputColumn β}, columns[j]? = some c' →
        ∃ d', row[j]? = some d' ∧ c'.Partial (indices ≠ []) bs d' := by
      intro j c' hc'
      have hj : j < row.length := hlength ▸ (List.getElem?_eq_some_iff.1 hc').1
      have hd' : row[j]? = some row[j] := List.getElem?_eq_getElem hj
      exact ⟨_, hd', hvalues j c' _ hc' hd'⟩
    obtain ⟨dn, hdn, hcount⟩ := hvalue hn
    obtain ⟨ds, hds, hsum⟩ := hvalue hs
    rw [finishRow_getElem? row h.averagesOnly, h.getElem?_folds hc, hkind] at hd
    obtain ⟨_, -, hd⟩ := Option.map_eq_some_iff.1 hd
    rw [hdn, hds] at hd
    have hnumbers := hnumeric c (List.mem_of_getElem? hc) (by simp [hkind])
      (by simp [hkind])
    rw [← hd]
    exact OutputColumn.averageOf_eq hnumbers (hfits _ (List.mem_of_getElem? hn)) hcount hsum
  | _ =>
    have hpartial := hother fun n s => by simp [hkind]
    unfold OutputColumn.Partial at hpartial
    rw [hkind] at hpartial
    exact hpartial

end Describes

/-! ## The groups of all shards -/

namespace Answers

variable {holds : Prop → OutputColumn β → List β → Datum → Prop} {bs : List β}

/-- The keys of all partial rows are those of all base rows. -/
theorem mem_keys_flatten {units : List (List β)} {partials : List (List Row)}
    (h : List.Forall₂ (Answers holds columns indices) units partials)
    (hunits : indices = [] → units ≠ []) (key : List UInt8) :
    key ∈ partials.flatten.map (groupKey indices) ↔
      indices = [] ∧ key = [] ∨ ∃ b ∈ units.flatten, keyOf columns indices b = key := by
  have hkeys : key ∈ partials.flatten.map (groupKey indices) ↔
      (indices = [] ∧ key = []) ∧ units ≠ [] ∨
        ∃ b ∈ units.flatten, keyOf columns indices b = key := by
    clear hunits
    induction h with
    | nil => simp
    | cons hunit _ ih =>
      rw [List.flatten_cons, List.map_append, List.mem_append, ih, hunit.complete key,
        List.flatten_cons]
      simp only [List.mem_append, or_and_right, exists_or]
      have hne : ∀ {u : List β} {us : List (List β)}, u :: us ≠ [] := List.cons_ne_nil _ _
      constructor
      · rintro ((hnil | hex) | (⟨hnil, -⟩ | hex))
        · exact .inl ⟨hnil, hne⟩
        · exact .inr (.inl hex)
        · exact .inl ⟨hnil, hne⟩
        · exact .inr (.inr hex)
      · rintro (⟨hnil, -⟩ | (hex | hex))
        · exact .inl (.inl hnil)
        · exact .inl (.inr hex)
        · exact .inr (.inr hex)
  rw [hkeys]
  constructor
  · rintro (⟨hnil, -⟩ | hex)
    · exact .inl hnil
    · exact .inr hex
  · rintro (hnil | hex)
    · exact .inl ⟨hnil, hunits hnil.1⟩
    · exact .inr hex

/-- An answer may be given in any order. -/
theorem perm {rows rows' : List Row} (h : Answers holds columns indices bs rows)
    (hperm : rows'.Perm rows) : Answers holds columns indices bs rows' where
  nodup := (hperm.map _).nodup_iff.2 h.nodup
  complete key := by rw [(hperm.map _).mem_iff, h.complete key]
  values row hrow := h.values row (hperm.mem_iff.1 hrow)

end Answers

/-- The gathered groups, finished, answer the query over the base rows that were read. -/
theorem Gathered.answers {known : List UInt8 → Prop} {groups : List Group} {bs : List β}
    (h : Gathered columns plan.keyColumns (groupOf columns plan.keyColumns bs) known groups)
    (hplan : Describes columns plan) (hnumeric : ∀ c ∈ columns, c.Numeric bs)
    (hfits : ∀ key, ∀ c ∈ columns, c.Fits (groupOf columns plan.keyColumns bs key))
    (hknown : ∀ key, known key ↔ plan.keyColumns = [] ∧ key = [] ∨
      ∃ b ∈ bs, keyOf columns plan.keyColumns b = key) :
    Answers OutputColumn.Total columns plan.keyColumns bs
      (groups.map fun group => finishRow plan.folds group.2) := by
  have hkeys : (groups.map fun group => finishRow plan.folds group.2).map
      (groupKey plan.keyColumns) = groups.map Prod.fst := by
    rw [List.map_map]
    refine List.map_congr_left fun group hgroup => ?_
    exact (hplan.groupKey_finishRow group.2).trans (h.key_eq group hgroup)
  refine ⟨?_, fun key => ?_, fun row hrow => ?_⟩
  · rw [hkeys]
    exact h.nodup
  · rw [hkeys, h.keys key, hknown key]
  · obtain ⟨group, hgroup, rfl⟩ := List.mem_map.1 hrow
    rw [hplan.groupKey_finishRow, h.key_eq group hgroup]
    refine hplan.total_finishRow (fun c hc hplain hcount b hb => ?_) (hfits group.1)
      (h.values group hgroup)
    exact hnumeric c hc hplain hcount b (mem_of_mem_groupOf hb)

/-! ## The order of the groups -/

/-- Where a plain column is sorted by, its values other than NULL are in order. -/
def SortableBy (columns : List (OutputColumn β)) (keys : List SortKey) (bs : List β) : Prop :=
  ∀ key ∈ keys, ∀ c, columns[key.index]? = some c → c.kind = .plain →
    ∃ D, Datum.TransitiveOn D ∧ ∀ b ∈ bs, (c.value b).isNull ∨ D (c.value b)

theorem Datum.Stands.comparable {d : Datum} {n : Option Int} (h : d.Stands n) :
    d.isNull ∨ d.toInt64?.isSome := by
  cases n with
  | none => exact .inl (h ▸ rfl)
  | some n =>
    obtain ⟨k, hk, -⟩ := h
    exact .inr (hk ▸ rfl)

/-- The answers of a column are in order: integers, averages and sortable values. -/
theorem comparable_total {bs : List β} {keys : List SortKey} {key : SortKey} (hkey : key ∈ keys)
    (hgrouped : plan.keyColumns ≠ []) (hplan : Describes columns plan)
    (hnumeric : ∀ c ∈ columns, c.Numeric bs)
    (hfits : ∀ key, ∀ c ∈ columns, c.Fits (groupOf columns plan.keyColumns bs key))
    (hsortable : SortableBy columns keys bs) {c : OutputColumn β}
    (hc : columns[key.index]? = some c) :
    ∃ D, Datum.TransitiveOn D ∧ ∀ k d,
      c.Total (plan.keyColumns ≠ []) (groupOf columns plan.keyColumns bs k) d →
        d.isNull ∨ D d := by
  have hmem := List.mem_of_getElem? hc
  unfold OutputColumn.Total
  cases hkind : c.kind with
  | plain =>
    obtain ⟨D, hD, hvalues⟩ := hsortable key hkey c hc hkind
    refine ⟨D, hD, fun k d hd => ?_⟩
    obtain ⟨b, hb, rfl⟩ := List.mem_map.1 (hd hgrouped)
    exact hvalues b (mem_of_mem_groupOf hb)
  | average n s =>
    refine ⟨_, Datum.TransitiveOn.floats, fun k d hd => ?_⟩
    obtain ⟨hn, hs⟩ := hplan.averages c hmem n s hkind
    have hnumbers := hnumeric c hmem (by simp [hkind]) (by simp [hkind])
    rw [hd]
    exact OutputColumn.mean_comparable (hfits k _ (List.mem_of_getElem? hn))
      (hfits k _ (List.mem_of_getElem? hs)) fun b hb => hnumbers b (mem_of_mem_groupOf hb)
  | _ => exact ⟨_, Datum.TransitiveOn.integers, fun k d hd => hd.comparable⟩

/-- The rows of an answer can be put in order. -/
theorem comparable_answers {bs : List β} {rows : List Row} {keys : List SortKey}
    (h : Answers OutputColumn.Total columns plan.keyColumns bs rows)
    (hplan : Describes columns plan) (hnumeric : ∀ c ∈ columns, c.Numeric bs)
    (hfits : ∀ key, ∀ c ∈ columns, c.Fits (groupOf columns plan.keyColumns bs key))
    (hsortable : SortableBy columns keys bs) : ComparableColumns keys rows := by
  intro key hkey
  by_cases hgrouped : plan.keyColumns = []
  · -- a single row is in order by itself
    rw [hgrouped] at h
    obtain ⟨row, rfl⟩ := h.eq_singleton
    refine ⟨(· = row.column key.index), ?_, fun row' hrow' => .inr ?_⟩
    · rintro a b c rfl rfl rfl hab -
      exact hab
    · rw [List.mem_singleton.1 hrow']
  · cases hc : columns[key.index]? with
    | none =>
      refine ⟨fun _ => False, fun _ _ _ hfalse => hfalse.elim, fun row hrow => .inl ?_⟩
      obtain ⟨hlength, -⟩ := rowOf_iff.1 (h.values row hrow)
      rw [Row.column, List.getElem?_eq_none (hlength ▸ List.getElem?_eq_none_iff.1 hc)]
      rfl
    | some c =>
      obtain ⟨D, hD, hvalues⟩ :=
        comparable_total hkey hgrouped hplan hnumeric hfits hsortable hc
      refine ⟨D, hD, fun row hrow => ?_⟩
      obtain ⟨hlength, htotals⟩ := rowOf_iff.1 (h.values row hrow)
      have hindex : key.index < row.length := hlength ▸ (List.getElem?_eq_some_iff.1 hc).1
      have hd : row[key.index]? = some row[key.index] := List.getElem?_eq_getElem hindex
      rw [Row.column, hd]
      exact hvalues _ _ (htotals _ c _ hc hd)

/-! ## The merge -/

theorem outcomes_flatten {partials : List (List Row)} {sources : List Source}
    (h : List.Forall₂ Source.Delivers partials sources) :
    sources.flatMap (·.outcomes) = partials.flatten.map .ok := by
  induction h with
  | nil => rfl
  | cons hs _ ih => rw [List.flatMap_cons, hs.outcomes, ih, List.flatten_cons, List.map_append]

/-- Merging the partial answers of all units gives the answer over all base rows, in the order of
the sort keys. -/
theorem mergeGroups_aggregates {W : Type} (closer : Closer W) (names : List String) (w : W)
    {units : List (List β)} {partials : List (List Row)} {sources : List Source}
    (hplan : Describes columns plan)
    (hpartials : List.Forall₂ (Answers OutputColumn.Partial columns plan.keyColumns) units partials)
    (hsources : List.Forall₂ Source.Delivers partials sources)
    (hclosed : (Source.closeAll closer sources w).1 = .ok ())
    (hunits : plan.groupKeys = [] → units ≠ [])
    (hroom : partials.flatten.length ≤ plan.maxRows)
    (hnumeric : ∀ c ∈ columns, c.Numeric units.flatten)
    (hfits : ∀ before, before <+: units → ∀ key, ∀ c ∈ columns,
      c.Fits (groupOf columns plan.keyColumns before.flatten key))
    (hsortable : SortableBy columns plan.outputKeys units.flatten) :
    ∃ rows, mergeGroups closer names plan sources w =
        (.ok (.ofRows (cutTo plan.width names) (rows.map (cutTo plan.width))),
          (Source.closeAll closer sources w).2.2) ∧
      Answers OutputColumn.Total columns plan.keyColumns units.flatten rows ∧
      rows.Pairwise fun a b => compareRows plan.outputKeys a b ≠ .gt := by
  have hunits' : plan.keyColumns = [] → units ≠ [] := fun hnil =>
    hunits (List.map_eq_nil_iff.1 hnil)
  have hall : ∀ key, ∀ c ∈ columns, c.Fits (groupOf columns plan.keyColumns units.flatten key) :=
    hfits units List.prefix_rfl
  -- no unit has been read yet
  have hleft : ∀ before, before <+: units → ∀ key, ∀ c ∈ columns,
      c.Fits (groupOf columns plan.keyColumns ([] ++ before).flatten key) := hfits
  have hroom : 0 + partials.flatten.length ≤ plan.maxRows := by rwa [Nat.zero_add]
  obtain ⟨groups, hgather, hgathered⟩ := gather_units hplan hpartials hroom hleft gathered_nil
  rw [← outcomes_flatten hsources] at hgather
  have hanswers := hgathered.answers hplan hnumeric hall fun key => by
    rw [false_or]
    exact Answers.mem_keys_flatten hpartials hunits' key
  have hcomparable : ComparableColumns plan.outputKeys _ :=
    comparable_answers hanswers hplan hnumeric hall hsortable
  refine ⟨_, ?_, hanswers.perm (List.mergeSort_perm _ _), pairwise_stablySorted hcomparable⟩
  unfold mergeGroups
  generalize Source.closeAll closer sources w = close at hclosed ⊢
  obtain ⟨closed, left, w'⟩ := close
  have hclosed : closed = .ok () := hclosed
  simp only [hgather, hclosed, GroupPlan.finish, sortRows_eq hcomparable]
  rfl

/-- Sales by branch: the branch, and the number, the sum, the maximum and the average of the
amounts. -/
def salesColumns : List (OutputColumn (Int32 × Datum)) :=
  [⟨.plain, fun sale => .int32 sale.1⟩, ⟨.count, Prod.snd⟩, ⟨.sum, Prod.snd⟩, ⟨.max, Prod.snd⟩,
    ⟨.average 1 2, Prod.snd⟩]

/-- Sales by branch, the best average first. -/
def salesPlan : GroupPlan where
  groupKeys := [⟨0, .asc, .first⟩]
  orderKeys := [⟨4, .desc, .last⟩]
  folds := [.first, .add, .add, .max, .average 1 2]
  width := none
  maxRows := 10

/-- The sales that each of two shards has. -/
def sales : List (List (Int32 × Datum)) :=
  [[(2, .null), (1, .int32 4)], [(1, .int64 8)]]

/-- What the shards answer. -/
def salesByUnit : List (List Row) :=
  [[[.int32 2, .int64 0, .null, .null, .null],
      [.int32 1, .int64 1, .int64 4, .int32 4, .float64 (.ofFloat 4.0)]],
    [[.int32 1, .int64 1, .int64 8, .int64 8, .float64 (.ofFloat 8.0)]]]

theorem mergeGroups_aggregates_sales :
    ∃ rows, mergeGroups (fun _ w => (.ok (), w)) [] salesPlan
        (salesByUnit.map (Source.ofRows [])) () =
          (.ok (.ofRows [] (rows.map (cutTo none))), ()) ∧
      Answers OutputColumn.Total salesColumns [0] sales.flatten rows ∧
      rows.Pairwise fun a b => compareRows salesPlan.outputKeys a b ≠ .gt := by
  have hdescribes : Describes salesColumns salesPlan := by
    refine ⟨rfl, fun i hi => ⟨⟨.plain, fun sale => .int32 sale.1⟩, ?_, rfl⟩,
      fun c hc n s hkind => ?_⟩
    · rw [List.mem_singleton.1 hi]
      rfl
    · simp only [salesColumns, List.mem_cons, List.not_mem_nil, or_false] at hc
      rcases hc with rfl | rfl | rfl | rfl | rfl <;> cases hkind
      exact ⟨rfl, rfl⟩
  have hanswers : List.Forall₂ (Answers OutputColumn.Partial salesColumns salesPlan.keyColumns)
      sales salesByUnit := by
    refine .cons ⟨by decide, fun key => ?_, fun row hrow => ?_⟩
      (.cons ⟨by decide, fun key => ?_, fun row hrow => ?_⟩ .nil)
    · have hkeys : [[Datum.int32 2, .int64 0, .null, .null, .null],
          [.int32 1, .int64 1, .int64 4, .int32 4, .float64 (.ofFloat 4.0)]].map
            (groupKey salesPlan.keyColumns) =
          [(2, Datum.null), (1, .int32 4)].map (keyOf salesColumns salesPlan.keyColumns) := by
        decide
      rw [hkeys, List.mem_map]
      simp [salesPlan, GroupPlan.keyColumns]
    · rcases List.mem_pair.1 hrow with rfl | rfl
      · exact .cons (fun _ => by decide) <| .cons ⟨0, rfl, rfl⟩ <| .cons rfl <| .cons rfl <|
          .cons trivial .nil
      · exact .cons (fun _ => by decide) <| .cons ⟨1, rfl, rfl⟩ <| .cons ⟨4, rfl, rfl⟩ <|
          .cons ⟨4, rfl, rfl⟩ <| .cons trivial .nil
    · have hkeys : [[Datum.int32 1, .int64 1, .int64 8, .int64 8, .float64 (.ofFloat 8.0)]].map
            (groupKey salesPlan.keyColumns) =
          [(1, Datum.int64 8)].map (keyOf salesColumns salesPlan.keyColumns) := by
        decide
      rw [hkeys, List.mem_map]
      simp [salesPlan, GroupPlan.keyColumns]
    · rw [List.mem_singleton.1 hrow]
      exact .cons (fun _ => by decide) <| .cons ⟨1, rfl, rfl⟩ <| .cons ⟨8, rfl, rfl⟩ <|
        .cons ⟨8, rfl, rfl⟩ <| .cons trivial .nil
  have hdelivers : List.Forall₂ Source.Delivers salesByUnit
      (salesByUnit.map (Source.ofRows [])) :=
    .cons (Source.delivers_ofRows _ _) (.cons (Source.delivers_ofRows _ _) .nil)
  have hnumeric : ∀ c ∈ salesColumns, c.Numeric sales.flatten := by
    unfold OutputColumn.Numeric
    decide
  have hfits : ∀ before, before <+: sales → ∀ key, ∀ c ∈ salesColumns,
      c.Fits (groupOf salesColumns salesPlan.keyColumns before.flatten key) := by
    intro before hbefore key c hc _ n hn
    have hsub : (groupOf salesColumns salesPlan.keyColumns before.flatten key).Sublist
        sales.flatten := by
      obtain ⟨after, hafter⟩ := hbefore
      rw [← hafter, List.flatten_append]
      exact List.filter_sublist.trans (List.sublist_append_left _ _)
    have hall : ∀ bs ∈ sales.flatten.sublists', ∀ c ∈ salesColumns,
        ∀ n ∈ c.total bs, FitsInt64 n := by decide
    exact hall _ (List.mem_sublists'.2 hsub) c hc n hn
  have hsortable : SortableBy salesColumns salesPlan.outputKeys sales.flatten := by
    intro key hkey c hc hkind
    rw [List.mem_singleton.1 hkey] at hc
    cases hc
    cases hkind
  exact mergeGroups_aggregates (fun _ w => (.ok (), w)) [] () hdescribes hanswers hdelivers rfl
    (fun _ h => by cases h) (by decide) hnumeric hfits hsortable

end Sharding
