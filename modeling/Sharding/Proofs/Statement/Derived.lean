import Mathlib.Data.List.Nodup
import Sharding.Proofs.Distinct
import Sharding.Statement.Shape

/-!
# Derived columns

A query on several shards selects derived columns in addition to its own, and it finds them again
by their aliases.

* `QueryShape.derivedLabels_distinct`: no two aliases are the same, also up to the case of letters.
  An alias tells the part of the query that it belongs to (`DerivedPart.eq_of_foldCase`).
* `QueryShape.find?_derivedColumns`: a sort or group item that no projection carries is found among
  the hidden columns.  These stand in front of the parts of the averages, so that an item is never
  answered with such a part.
* `QueryShape.count_mem` and `QueryShape.sum_mem`: the parts of an average are derived columns, each
  with the alias of the average's position.
-/

namespace Sharding

/-! ## Numbered names -/

theorem toLower_of_isDigit {c : Char} (h : c.isDigit = true) : c.toLower = c := by
  simp only [Char.isDigit, Bool.and_eq_true, decide_eq_true_eq, UInt32.le_iff_toNat_le] at h
  have hdigit : c.val.toNat ≤ 57 := h.2
  refine dif_neg fun hcapital => ?_
  have hletter : 65 ≤ c.val.toNat := UInt32.le_iff_toNat_le.1 hcapital.1
  omega

theorem foldCase_append (a b : String) : foldCase (a ++ b) = foldCase a ++ foldCase b := by
  rw [foldCase, String.toList_append, List.map_append]
  rfl

theorem foldCase_natText (n : Nat) : foldCase (natText n) = Nat.toDigits 10 n := by
  have hdigits : natText n = String.ofList (Nat.toDigits 10 n) :=
    congrArg String.ofList (if_neg (Int.not_lt.2 (Int.natCast_nonneg n)))
  rw [foldCase, hdigits, String.toList_ofList]
  refine (List.map_congr_left fun c hc => ?_).trans (List.map_id _)
  exact toLower_of_isDigit (Nat.isDigit_of_mem_toDigits (by decide) (by decide) hc)

theorem eq_of_foldCase_natText {m n : Nat} (h : foldCase (natText m) = foldCase (natText n)) :
    m = n := by
  rw [foldCase_natText, foldCase_natText] at h
  rw [← Nat.ofDigitChars_ten_toDigits (n := m), h, Nat.ofDigitChars_ten_toDigits]

/-! ## Aliases -/

/-- What a column is derived for: a hidden group or sort item, or the count or the sum of an
average. -/
inductive DerivedKind where
  | group
  | order
  | count
  | sum
deriving DecidableEq

/-- The word that the alias begins with. -/
def DerivedKind.stem : DerivedKind → String
  | group => "GROUP_BY_DERIVED_"
  | order => "ORDER_BY_DERIVED_"
  | count => "AVG_DERIVED_COUNT_"
  | sum => "AVG_DERIVED_SUM_"

/-- A part of a query that a column is derived for, with its position. -/
structure DerivedPart where
  kind : DerivedKind
  position : Nat
deriving DecidableEq

namespace DerivedPart

/-- The alias of a derived column. -/
def label (p : DerivedPart) : String :=
  p.kind.stem ++ natText p.position

/-- The stems differ in their first thirteen letters. -/
theorem kind_eq_of_take {k k' : DerivedKind}
    (h : (foldCase k.stem).take 13 = (foldCase k'.stem).take 13) : k = k' := by
  revert h
  cases k <;> cases k' <;> decide

theorem take_label (p : DerivedPart) :
    (foldCase p.label).take 13 = (foldCase p.kind.stem).take 13 := by
  rw [label, foldCase_append, List.take_append_of_le_length]
  cases p.kind <;> decide

theorem eq_of_foldCase {p p' : DerivedPart} (h : foldCase p.label = foldCase p'.label) :
    p = p' := by
  have hkind : p.kind = p'.kind := kind_eq_of_take (by rw [← take_label, ← take_label, h])
  rw [label, label, foldCase_append, foldCase_append, hkind] at h
  have hposition := eq_of_foldCase_natText (List.append_cancel_left h)
  cases p
  cases p'
  exact congr (congrArg mk hkind) hposition

end DerivedPart

/-! ## The columns of a query -/

theorem map_filterMap_sublist {α β γ : Type} {f : α → Option β} {g : β → γ} {k : α → γ}
    {xs : List α} (h : ∀ x ∈ xs, ∀ y, f x = some y → g y = k x) :
    ((xs.filterMap f).map g).Sublist (xs.map k) := by
  induction xs with
  | nil => exact .slnil
  | cons x xs ih =>
    have ih := ih fun x' hx' => h x' (List.mem_cons_of_mem _ hx')
    rw [List.filterMap_cons, List.map_cons]
    cases hx : f x with
    | none => exact ih.cons _
    | some y =>
      rw [List.map_cons, h x List.mem_cons_self y hx]
      exact ih.cons_cons _

theorem flatMap_sublist {α β : Type} {f g : α → List β} {xs : List α}
    (h : ∀ x ∈ xs, (f x).Sublist (g x)) : (xs.flatMap f).Sublist (xs.flatMap g) := by
  induction xs with
  | nil => exact .slnil
  | cons x xs ih =>
    rw [List.flatMap_cons, List.flatMap_cons]
    exact (h x List.mem_cons_self).append (ih fun x' hx' => h x' (List.mem_cons_of_mem _ hx'))

namespace QueryShape

variable {q : QueryShape}

/-- The aliases of the derived columns. -/
def derivedLabels (q : QueryShape) : List String :=
  q.derivedColumns.map (·.label)

/-- The columns for the items that no projection carries, each expression once. -/
def hiddenColumns (q : QueryShape) : List Sql.DerivedColumn :=
  distinctBy (fun a b => sameName a.expression b.expression)
    (q.hiddenItems (fun i => "GROUP_BY_DERIVED_" ++ natText i) q.groupBy ++
      q.hiddenItems (fun i => "ORDER_BY_DERIVED_" ++ natText i) q.orderBy)

theorem derivedColumns_eq (q : QueryShape) :
    q.derivedColumns = q.hiddenColumns ++ q.averageParts := rfl

/-- All that columns may be derived for. -/
def parts (q : QueryShape) : List DerivedPart :=
  (List.range q.groupBy.length).map (DerivedPart.mk .group) ++
    (List.range q.orderBy.length).map (DerivedPart.mk .order) ++
    (List.range q.projections.length).flatMap fun i => [⟨.count, i⟩, ⟨.sum, i⟩]

theorem nodup_parts (q : QueryShape) : q.parts.Nodup := by
  have hitems : ((List.range q.groupBy.length).map (DerivedPart.mk .group) ++
      (List.range q.orderBy.length).map (DerivedPart.mk .order)).Nodup := by
    refine List.nodup_append.2 ⟨?_, ?_, ?_⟩
    · exact List.nodup_range.map fun i j h => congrArg DerivedPart.position h
    · exact List.nodup_range.map fun i j h => congrArg DerivedPart.position h
    · rintro p hp p' hp' rfl
      obtain ⟨i, -, rfl⟩ := List.mem_map.1 hp
      obtain ⟨j, -, hj⟩ := List.mem_map.1 hp'
      cases hj
  refine List.nodup_append.2 ⟨hitems, List.nodup_flatMap.2 ⟨fun i _ => by simp, ?_⟩, ?_⟩
  · refine List.nodup_range.imp fun {i j} hne => ?_
    simpa [Function.onFun] using Ne.symm hne
  · rintro p hp p' hp' rfl
    obtain ⟨i, -, hi⟩ := List.mem_flatMap.1 hp'
    rcases List.mem_append.1 hp with hp | hp <;> obtain ⟨j, -, rfl⟩ := List.mem_map.1 hp <;>
      simp at hi

theorem hiddenItems_labels (q : QueryShape) (aliasOf : Nat → String) (items : List SortItem) :
    ((q.hiddenItems aliasOf items).map (·.label)).Sublist
      ((List.range items.length).map aliasOf) := by
  have hpositions : (List.range items.length).map aliasOf =
      items.zipIdx.map fun item => aliasOf item.2 := by
    rw [List.range_eq_range', ← List.zipIdx_map_snd, List.map_map]
    rfl
  rw [hpositions]
  refine map_filterMap_sublist fun item _ d hd => ?_
  dsimp only at hd
  split at hd
  · cases hd
  · cases hd
    rfl

theorem averageParts_labels (q : QueryShape) :
    (q.averageParts.map (·.label)).Sublist
      ((List.range q.projections.length).flatMap fun i => [countAlias i, sumAlias i]) := by
  have hpositions :
      ((List.range q.projections.length).flatMap fun i => [countAlias i, sumAlias i]) =
        q.projections.zipIdx.flatMap fun p => [countAlias p.2, sumAlias p.2] := by
    rw [List.range_eq_range', ← List.zipIdx_map_snd, List.flatMap_map]
  rw [hpositions, averageParts, List.map_flatMap]
  refine flatMap_sublist fun p _ => ?_
  obtain ⟨p, i⟩ := p
  dsimp only
  split
  · exact List.Sublist.refl _
  · exact List.nil_sublist _

/-- The aliases are among those of the parts, in their order. -/
theorem derivedLabels_sublist (q : QueryShape) :
    q.derivedLabels.Sublist (q.parts.map DerivedPart.label) := by
  rw [derivedLabels, derivedColumns_eq, List.map_append, parts, List.map_append]
  refine List.Sublist.append (((distinctFrom_sublist _ [] _).map _).trans ?_) ?_
  · rw [List.map_append, List.map_append, List.map_map, List.map_map]
    exact (hiddenItems_labels q _ q.groupBy).append (hiddenItems_labels q _ q.orderBy)
  · rw [List.map_flatMap]
    exact averageParts_labels q

/-- No two aliases are the same. -/
theorem derivedLabels_distinct (q : QueryShape) :
    q.derivedLabels.Pairwise fun a b => ¬ sameName a b := by
  refine List.Pairwise.sublist (derivedLabels_sublist q) (List.pairwise_map.2 ?_)
  refine (nodup_parts q).imp fun {p p'} hne hsame => hne ?_
  exact DerivedPart.eq_of_foldCase (sameName_iff.1 hsame)

/-- A hidden column is no part of an average. -/
theorem not_mem_averageParts {d : Sql.DerivedColumn} (h : d ∈ q.hiddenColumns) :
    d ∉ q.averageParts := by
  have hdistinct := derivedLabels_distinct q
  rw [derivedLabels, derivedColumns_eq, List.map_append] at hdistinct
  intro hpart
  exact (List.pairwise_append.1 hdistinct).2.2 _ (List.mem_map_of_mem h) _
    (List.mem_map_of_mem hpart) (sameName_refl _)

/-! ## The columns that a shard reports -/

/-- The labels of the columns that a shard reports: the visible ones, and then the derived ones. -/
def reportedLabels (q : QueryShape) : List String :=
  q.visibleLabels ++ q.derivedLabels

/-- No two columns that a shard reports have the same label. -/
def Labelled (q : QueryShape) : Prop :=
  q.reportedLabels.Pairwise fun a b => ¬ sameName a b

theorem labelled_of_visible (hvisible : q.visibleLabels.Pairwise fun a b => ¬ sameName a b)
    (hfree : ∀ a ∈ q.visibleLabels, ∀ b ∈ q.derivedLabels, ¬ sameName a b) : q.Labelled :=
  List.pairwise_append.2 ⟨hvisible, derivedLabels_distinct q, hfree⟩

theorem getElem?_reported_visible {i : Nat} {p : Projection} (h : q.projections[i]? = some p) :
    q.reportedLabels[i]? = some p.label := by
  have hlabel : q.visibleLabels[i]? = some p.label := by
    rw [visibleLabels, List.getElem?_map, h]
    rfl
  rw [reportedLabels, List.getElem?_append_left (List.getElem?_eq_some_iff.1 hlabel).1, hlabel]

theorem getElem?_reported_derived {k : Nat} {d : Sql.DerivedColumn}
    (h : q.derivedColumns[k]? = some d) :
    q.reportedLabels[q.visibleWidth + k]? = some d.label := by
  have hwidth : q.visibleLabels.length = q.visibleWidth := List.length_map _
  rw [reportedLabels, List.getElem?_append_right (by omega), hwidth, Nat.add_sub_cancel_left,
    derivedLabels, List.getElem?_map, h]
  rfl

/-! ## Finding hidden items -/

theorem mem_hiddenItems {aliasOf : Nat → String} {items : List SortItem} {item : SortItem}
    (hstar : q.projections ≠ []) (hmem : item ∈ items)
    (hhidden : q.projectionFor? item.column = none) :
    ∃ d ∈ q.hiddenItems aliasOf items, d.expression = item.column := by
  obtain ⟨i, hi⟩ := List.getElem?_of_mem hmem
  refine ⟨⟨item.column, aliasOf i⟩, ?_, rfl⟩
  refine List.mem_filterMap.2 ⟨(item, i), List.mk_mem_zipIdx_iff_getElem?.2 hi, if_neg ?_⟩
  rw [hhidden, Option.isSome_none, Bool.or_false, List.isEmpty_iff]
  exact hstar

/-- An item that no projection carries is found among the hidden columns. -/
theorem find?_derivedColumns {item : SortItem} (hstar : q.projections ≠ [])
    (hmem : item ∈ q.groupBy ∨ item ∈ q.orderBy)
    (hhidden : q.projectionFor? item.column = none) :
    ∃ d ∈ q.hiddenColumns,
      (q.derivedColumns.find? fun d => sameName d.expression item.column) = some d := by
  obtain ⟨d, hd, hexpression⟩ : ∃ d ∈ q.hiddenItems (fun i => "GROUP_BY_DERIVED_" ++ natText i)
      q.groupBy ++ q.hiddenItems (fun i => "ORDER_BY_DERIVED_" ++ natText i) q.orderBy,
      d.expression = item.column := by
    rcases hmem with hmem | hmem
    · obtain ⟨d, hd, h⟩ := mem_hiddenItems hstar hmem hhidden
      exact ⟨d, List.mem_append_left _ hd, h⟩
    · obtain ⟨d, hd, h⟩ := mem_hiddenItems hstar hmem hhidden
      exact ⟨d, List.mem_append_right _ hd, h⟩
  obtain ⟨kept, hkept, hsame⟩ := @exists_kept_distinctBy _
    (fun a b : Sql.DerivedColumn => sameName a.expression b.expression) _ _ hd
  have hfound : (q.hiddenColumns.find? fun d => sameName d.expression item.column).isSome := by
    refine List.find?_isSome.2 ⟨kept, hkept, ?_⟩
    rw [← hexpression]
    rcases hsame with rfl | hsame
    · exact sameName_refl _
    · exact hsame
  obtain ⟨found, hfound⟩ := Option.isSome_iff_exists.1 hfound
  refine ⟨found, List.mem_of_find?_eq_some hfound, ?_⟩
  rw [derivedColumns_eq, List.find?_append, hfound, Option.some_or]

/-! ## The parts of averages -/

section Average

variable {i : Nat} {arg : String} {name : Option String}

theorem count_mem (h : q.projections[i]? = some (.aggregate .avg arg name)) :
    ⟨Aggregate.count.call arg, countAlias i⟩ ∈ q.averageParts :=
  List.mem_flatMap.2 ⟨_, List.mk_mem_zipIdx_iff_getElem?.2 h, List.mem_cons_self⟩

theorem sum_mem (h : q.projections[i]? = some (.aggregate .avg arg name)) :
    ⟨Aggregate.sum.call arg, sumAlias i⟩ ∈ q.averageParts :=
  List.mem_flatMap.2 ⟨_, List.mk_mem_zipIdx_iff_getElem?.2 h,
    List.mem_cons_of_mem _ List.mem_cons_self⟩

end Average

end QueryShape

end Sharding
