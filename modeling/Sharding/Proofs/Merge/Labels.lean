import Mathlib.Data.List.TakeWhile
import Sharding.Merge.Plan
import Sharding.Proofs.Results
import Sharding.Proofs.Sql.Words
import Sharding.Proofs.Statement.Derived

/-!
# Sort keys point at labels

A sort or group item may name a projection by its expression.  The merge knows the projection then,
but it looks for its column by the label, and what it finds is the first column of that label.

* `Projection.ReportedAs` and `QueryShape.Reports` say what the labels of a shard's columns are: the
  aliases, or the expressions without their qualifiers, and then the derived aliases.
* `QueryShape.NamesOnly` says that an item names one projection, by its expression.
* `QueryShape.NamesOnly.columnIndex?`: the label of that projection leads to the first column that is
  labelled like its own.  Only a qualified name comes without its qualifier, and no column has a
  qualified label but under an alias.
-/

namespace Sharding

/-! ## Points in names -/

/-- A name with a point in it. -/
def Dotted (name : String) : Prop :=
  '.' ∈ name.toList

theorem toLower_eq_point {c : Char} : c.toLower = '.' ↔ c = '.' := by
  constructor
  · intro h
    rcases toLower_cases c with hsame | ⟨hcapital, hlower⟩
    · rw [← hsame]
      exact h
    · have hpoint : c.toLower.toNat = 46 := by rw [h]; rfl
      omega
  · rintro rfl
    rfl

theorem dotted_iff_foldCase {name : String} : Dotted name ↔ '.' ∈ foldCase name := by
  simp [Dotted, foldCase, toLower_eq_point]

theorem Dotted.congr {a b : String} (hsame : sameName a b = true) (h : Dotted a) : Dotted b := by
  rw [dotted_iff_foldCase] at h ⊢
  rw [← sameName_iff.1 hsame]
  exact h

theorem unqualified?_eq_some {name rest : String} (h : unqualified? name = some rest) :
    Dotted name ∧ ¬ Dotted rest := by
  simp only [unqualified?] at h
  split at h
  · rename_i hdotted
    cases h
    refine ⟨hdotted, fun hrest => ?_⟩
    rw [Dotted, String.toList_ofList, List.mem_reverse] at hrest
    have hpoint := List.mem_takeWhile_imp hrest
    simp at hpoint
  · cases h

/-- No alias of a derived column has a point in it. -/
theorem DerivedPart.not_dotted_label (p : DerivedPart) : ¬ Dotted p.label := by
  rw [dotted_iff_foldCase, label, foldCase_append, foldCase_natText, List.mem_append]
  rintro (hstem | hdigits)
  · revert hstem
    cases p.kind <;> decide
  · have hdigit := Nat.isDigit_of_mem_toDigits (by decide) (by decide) hdigits
    exact absurd hdigit (by decide)

theorem QueryShape.not_dotted_derived {q : QueryShape} {label : String}
    (h : label ∈ q.derivedLabels) : ¬ Dotted label := by
  obtain ⟨p, -, rfl⟩ := List.mem_map.1 ((derivedLabels_sublist q).subset h)
  exact p.not_dotted_label

/-! ## The labels of a shard's columns -/

/-- The first of some columns that are labelled like the one at `i`. -/
theorem findIdx?_label {columns : List String} {i : Nat} {label : String}
    (hlabel : columns[i]? = some label) :
    ∃ k, columns.findIdx? (sameName · label) = some k ∧
      (k = i ↔ ∀ j < i, ∀ other, columns[j]? = some other → ¬ sameName other label) := by
  obtain ⟨hi, rfl⟩ := List.getElem?_eq_some_iff.1 hlabel
  have hsome : (columns.findIdx? (sameName · columns[i])).isSome = true := by
    rw [List.findIdx?_isSome, List.any_eq_true]
    exact ⟨columns[i], List.getElem_mem hi, sameName_refl _⟩
  obtain ⟨k, hk⟩ := Option.isSome_iff_exists.1 hsome
  obtain ⟨hlt, hsame, hearlier⟩ := List.findIdx?_eq_some_iff_getElem.1 hk
  refine ⟨k, hk, ?_, ?_⟩
  · rintro rfl j hj other hother
    obtain ⟨hj', rfl⟩ := List.getElem?_eq_some_iff.1 hother
    exact hearlier j hj
  · intro hfirst
    rcases Nat.lt_trichotomy k i with hki | hki | hki
    · exact absurd hsame (hfirst k hki _ (List.getElem?_eq_getElem hlt))
    · exact hki
    · exact absurd (sameName_refl _) (hearlier i hki)

/-- A shard labels the column of a projection by the alias, or else by the expression, which may
come without its qualifier. -/
def Projection.ReportedAs (p : Projection) (label : String) : Prop :=
  match p.givenName? with
  | some name => label = name
  | none => label = p.expression ∨ unqualified? p.expression = some label

namespace QueryShape

/-- A shard reports the projections in their order, and then the derived columns. -/
def Reports (q : QueryShape) (columns : List String) : Prop :=
  ∃ labels, List.Forall₂ Projection.ReportedAs q.projections labels ∧
    columns = labels ++ q.derivedLabels

/-- A name is the expression of one projection and of no other, and the alias of none. -/
structure NamesOnly (q : QueryShape) (name : String) (i : Nat) : Prop where
  here : ∃ p, q.projections[i]? = some p ∧ sameName p.expression name = true
  only : ∀ j p, q.projections[j]? = some p → sameName p.expression name = true → j = i
  unaliased : ∀ p ∈ q.projections, ∀ given, p.givenName? = some given → ¬ sameName given name

variable {q : QueryShape} {columns : List String} {name : String} {i : Nat}

/-- A column is that of a projection or a derived one. -/
theorem Reports.cases (h : q.Reports columns) {j : Nat} {label : String}
    (hj : columns[j]? = some label) :
    (∃ p, q.projections[j]? = some p ∧ p.ReportedAs label) ∨ label ∈ q.derivedLabels := by
  obtain ⟨labels, hlabels, rfl⟩ := h
  rcases Nat.lt_or_ge j labels.length with hlt | hge
  · left
    rw [List.getElem?_append_left hlt] at hj
    have hj' : j < q.projections.length := hlabels.length_eq ▸ hlt
    refine ⟨q.projections[j], List.getElem?_eq_getElem hj', ?_⟩
    have hreported := (List.forall₂_iff_get.1 hlabels).2 j hj' hlt
    rw [List.getElem?_eq_getElem hlt] at hj
    cases hj
    exact hreported
  · right
    rw [List.getElem?_append_right hge] at hj
    exact List.mem_of_getElem? hj

theorem Reports.exists_label (h : q.Reports columns) {p : Projection}
    (hp : q.projections[i]? = some p) : ∃ label, columns[i]? = some label ∧ p.ReportedAs label := by
  obtain ⟨labels, hlabels, rfl⟩ := h
  obtain ⟨hi, rfl⟩ := List.getElem?_eq_some_iff.1 hp
  have hi' : i < labels.length := hlabels.length_eq ▸ hi
  refine ⟨labels[i], ?_, (List.forall₂_iff_get.1 hlabels).2 i hi hi'⟩
  rw [List.getElem?_append_left hi', List.getElem?_eq_getElem hi']

/-- A name is the expression of one projection if comparing it with all expressions says so. -/
theorem NamesOnly.of_map
    (hhere : (q.projections.map fun p => sameName p.expression name) =
      (List.range q.projections.length).map (· == i))
    (hi : i < q.projections.length)
    (hunaliased : ∀ p ∈ q.projections, ∀ given, p.givenName? = some given → ¬ sameName given name) :
    q.NamesOnly name i := by
  have hat : ∀ j p, q.projections[j]? = some p → sameName p.expression name = (j == i) := by
    intro j p hp
    have hj : (q.projections.map fun p => sameName p.expression name)[j]? =
        some (sameName p.expression name) := by
      rw [List.getElem?_map, hp]
      rfl
    rw [hhere, List.getElem?_map,
      List.getElem?_range (List.getElem?_eq_some_iff.1 hp).1] at hj
    exact (Option.some.inj hj).symm
  refine ⟨⟨_, List.getElem?_eq_getElem hi, ?_⟩, fun j p hp hsame => ?_, hunaliased⟩
  · rw [hat i _ (List.getElem?_eq_getElem hi)]
    exact beq_self_eq_true i
  · rw [hat j p hp] at hsame
    exact beq_iff_eq.1 hsame

/-- A projection is known by a name that is nobody's alias exactly if it is its expression. -/
theorem NamesOnly.isNamed_iff (h : q.NamesOnly name i) {p : Projection}
    (hp : p ∈ q.projections) : p.isNamed name = true ↔ sameName p.expression name = true := by
  rw [Projection.isNamed, Bool.or_eq_true]
  constructor
  · rintro (hlabel | hexpression)
    · rw [Projection.label] at hlabel
      cases hgiven : p.givenName? with
      | none =>
        rw [hgiven] at hlabel
        exact hlabel
      | some given =>
        rw [hgiven] at hlabel
        exact absurd hlabel (h.unaliased p hp given hgiven)
    · exact hexpression
  · exact Or.inr

theorem NamesOnly.projectionFor? (h : q.NamesOnly name i) :
    q.projectionFor? name = q.projections[i]? := by
  obtain ⟨p, hp, hexpression⟩ := h.here
  have hnamed := (h.isNamed_iff (List.mem_of_getElem? hp)).2 hexpression
  rw [hp]
  cases hfound : q.projectionFor? name with
  | none => exact absurd hnamed (List.find?_eq_none.1 hfound p (List.mem_of_getElem? hp))
  | some found =>
    have hmem := List.mem_of_find?_eq_some hfound
    have hfound' : found.isNamed name = true :=
      List.find?_some (p := fun p : Projection => p.isNamed name) hfound
    obtain ⟨j, hj⟩ := List.getElem?_of_mem hmem
    obtain rfl := h.only j found hj ((h.isNamed_iff hmem).1 hfound')
    rw [← hp, hj]

/-- Where the column of a projection comes without its qualifier, no column has the full name. -/
theorem NamesOnly.no_full_label (h : q.NamesOnly name i) (hreports : q.Reports columns)
    {p : Projection} (hp : q.projections[i]? = some p)
    {label : String} (hlabel : columns[i]? = some label)
    (hbare : unqualified? p.expression = some label) {column : String} (hcolumn : column ∈ columns) :
    sameName column p.expression = false := by
  obtain ⟨hdotted, hplain⟩ := unqualified?_eq_some hbare
  obtain ⟨p', hp', hexpression⟩ := h.here
  cases hp.symm.trans hp'
  by_contra hsame
  rw [Bool.not_eq_false] at hsame
  have hname : sameName column name = true := by
    rw [sameName_iff] at hsame hexpression ⊢
    rw [hsame, hexpression]
  have hcolumnDotted : Dotted column := by
    refine hdotted.congr ?_
    rw [sameName_iff] at hsame ⊢
    exact hsame.symm
  obtain ⟨j, hj⟩ := List.getElem?_of_mem hcolumn
  rcases hreports.cases hj with ⟨p', hp', hreported⟩ | hderived
  · rw [Projection.ReportedAs] at hreported
    cases hgiven : p'.givenName? with
    | some given =>
      rw [hgiven] at hreported
      cases hreported
      exact h.unaliased p' (List.mem_of_getElem? hp') column hgiven hname
    | none =>
      rw [hgiven] at hreported
      rcases hreported with rfl | hbare'
      · -- only the projection itself has this expression, and its column has another label
        obtain rfl := h.only j p' hp' hname
        cases hlabel.symm.trans hj
        exact hplain hcolumnDotted
      · exact (unqualified?_eq_some hbare').2 hcolumnDotted
  · exact not_dotted_derived hderived hcolumnDotted

/-- The label of a projection leads to the first column that is labelled like its own. -/
theorem NamesOnly.columnIndex? (h : q.NamesOnly name i) (hreports : q.Reports columns)
    {p : Projection} (hp : q.projections[i]? = some p) {label : String}
    (hlabel : columns[i]? = some label) (hreported : p.ReportedAs label) :
    columnIndex? columns p.label = columns.findIdx? (sameName · label) := by
  obtain ⟨k, hk, -⟩ := findIdx?_label hlabel
  have hown : p.label = label →
      Sharding.columnIndex? columns p.label = columns.findIdx? (sameName · label) := by
    rintro rfl
    rw [Sharding.columnIndex?, hk]
    rfl
  rw [Projection.ReportedAs] at hreported
  cases hgiven : p.givenName? with
  | some given =>
    rw [hgiven] at hreported
    apply hown
    rw [Projection.label, hgiven]
    exact hreported.symm
  | none =>
    have hexpression : p.label = p.expression := by
      rw [Projection.label, hgiven]
      rfl
    rw [hgiven] at hreported
    rcases hreported with rfl | hbare
    · exact hown hexpression
    · have hnone : columns.findIdx? (sameName · p.expression) = none := by
        rw [List.findIdx?_eq_none_iff]
        intro column hcolumn
        exact h.no_full_label hreports hp hlabel hbare hcolumn
      rw [hexpression, Sharding.columnIndex?, hnone, hbare]
      rfl

end QueryShape

/-! ## Sort keys -/

variable {q : QueryShape} {columns : List String} {item : SortItem} {items : List SortItem}
  {i n : Nat}

/-- An item that names one projection by its expression is found in the first column that is
labelled like that projection's, so in its own column exactly if no column before it has its
label. -/
theorem sortKeys_point_at_label (hreports : q.Reports columns) (hitem : items[n]? = some item)
    (hnames : q.NamesOnly item.column i) :
    ∃ k label, columns[i]? = some label ∧ columns.findIdx? (sameName · label) = some k ∧
      (k = i ↔ ∀ j < i, ∀ other, columns[j]? = some other → ¬ sameName other label) ∧
      sortKey q columns item = .ok ⟨k, item.direction, item.nulls⟩ ∧
      ∀ keys, sortKeys q columns items = .ok keys →
        keys[n]? = some ⟨k, item.direction, item.nulls⟩ := by
  obtain ⟨p, hp, hexpression⟩ := hnames.here
  obtain ⟨label, hlabel, hreported⟩ := hreports.exists_label hp
  obtain ⟨k, hk, hfirst⟩ := findIdx?_label hlabel
  have hresolved : q.resolveLabel item.column = p.label := by
    rw [QueryShape.resolveLabel, hnames.projectionFor?, hp]
  have hkey : sortKey q columns item = .ok ⟨k, item.direction, item.nulls⟩ := by
    rw [sortKey, hresolved, hnames.columnIndex? hreports hp hlabel hreported, hk]
    rfl
  refine ⟨k, label, hlabel, hk, hfirst, hkey, fun keys hkeys => ?_⟩
  have hall := mapM_eq_ok_iff.1 hkeys
  obtain ⟨hn, rfl⟩ := List.getElem?_eq_some_iff.1 hitem
  have hn' : n < keys.length := hall.length_eq ▸ hn
  have hown := (List.forall₂_iff_get.1 hall).2 n hn hn'
  have heq : keys[n] = ⟨k, items[n].direction, items[n].nulls⟩ :=
    Except.ok.inj (hown.symm.trans hkey)
  rw [List.getElem?_eq_getElem hn', heq]

/-- The amounts of orders for each pair of users, from two tables that both know users. -/
def joinedUsers : QueryShape where
  projections := [.column "o.user_id" none, .column "u.user_id" none,
    .aggregate .sum "o.amount" (some "total")]
  groupBy := [⟨"o.user_id", .asc, .first⟩, ⟨"u.user_id", .asc, .first⟩]
  orderBy := [⟨"u.user_id", .asc, .first⟩, ⟨"sum(o.amount)", .desc, .last⟩]

theorem reports_joinedUsers : joinedUsers.Reports ["user_id", "user_id", "total"] := by
  refine ⟨["user_id", "user_id", "total"], ?_, by decide⟩
  refine .cons (.inr ?_) (.cons (.inr ?_) (.cons rfl .nil)) <;> decide

theorem namesOnly_joinedUsers {name : String} {i : Nat}
    (hhere : (joinedUsers.projections.map fun p => sameName p.expression name) =
      (List.range 3).map (· == i))
    (hi : i < 3) (hgiven : sameName "total" name = false) : joinedUsers.NamesOnly name i := by
  refine .of_map hhere hi fun p hp given hname => ?_
  simp only [joinedUsers, List.mem_cons, List.not_mem_nil, or_false] at hp
  rcases hp with rfl | rfl | rfl <;> cases hname
  rw [hgiven]
  exact Bool.false_ne_true

/-- The total is found under its alias, which no column before it has. -/
theorem sortKeys_point_at_label_total :
    joinedUsers.Reports ["user_id", "user_id", "total"] ∧
      joinedUsers.NamesOnly "sum(o.amount)" 2 ∧
      joinedUsers.orderBy[1]? = some ⟨"sum(o.amount)", .desc, .last⟩ ∧
      sortKey joinedUsers ["user_id", "user_id", "total"] ⟨"sum(o.amount)", .desc, .last⟩ =
        .ok ⟨2, .desc, .last⟩ := by
  have hnames : joinedUsers.NamesOnly "sum(o.amount)" 2 :=
    namesOnly_joinedUsers (by decide) (by decide) (by decide)
  have hitem : joinedUsers.orderBy[1]? = some ⟨"sum(o.amount)", .desc, .last⟩ := rfl
  obtain ⟨k, label, hlabel, -, hfirst, hkey, -⟩ :=
    sortKeys_point_at_label reports_joinedUsers hitem hnames
  cases hlabel
  have hearlier : ∀ j < 2, ∀ other, ["user_id", "user_id", "total"][j]? = some other →
      ¬ sameName other "total" := by
    intro j hj other hother
    obtain rfl | rfl : j = 0 ∨ j = 1 := by omega
    · cases hother
      decide
    · cases hother
      decide
  obtain rfl := hfirst.2 hearlier
  exact ⟨reports_joinedUsers, hnames, hitem, hkey⟩

/-- The users of the second table are looked for under the name that both tables give them, and the
key points at those of the first. -/
theorem sort_key_of_other_table :
    joinedUsers.Reports ["user_id", "user_id", "total"] ∧ joinedUsers.NamesOnly "u.user_id" 1 ∧
      sortKeys joinedUsers ["user_id", "user_id", "total"] joinedUsers.orderBy =
        .ok [⟨0, .asc, .first⟩, ⟨2, .desc, .last⟩] :=
  ⟨reports_joinedUsers, namesOnly_joinedUsers (by decide) (by decide) (by decide), by decide⟩

end Sharding
