import Sharding.Proofs.Merge.Combined
import Sharding.Proofs.Merge.HiddenOrder

/-!
# Groups column by column

Rows of one width are folded column by column, each column by its own fold (`column_foldRow`).  So
what a group has in a column is what its fold makes of the values in that column
(`holds_foldGroup`), and two orders of the rows agree on it (`foldGroup_agree`).

The values of a column that is combined have to be NULL, integers or decimals that stay in 128 bits
when they are brought to one scale: `AlignedFrom` says so for each step of the fold.

Finishing a row changes averages only.  An average whose parts are no averages is computed from what
the folds left in its parts (`getElem?_finishRow_average`).
-/

namespace Sharding

variable {folds : List ColumnFold} {rows rest : List Row} {acc row out out' : Row} {n i j : Nat}

/-- The fold of a column.  A column without a fold of its own keeps its first value. -/
def foldAt (folds : List ColumnFold) (j : Nat) : ColumnFold :=
  folds[j]?.getD .first

theorem lt_length_of_combines (h : (foldAt folds j).Combines) : j < folds.length := by
  by_contra hj
  rw [foldAt, List.getElem?_eq_none (Nat.not_lt.1 hj)] at h
  exact h

/-! ## Folding rows -/

theorem length_foldRow {column : Nat} (h : foldRow folds column acc row = .ok out) :
    out.length = acc.length := by
  induction acc generalizing row out column with
  | nil =>
    cases h
    rfl
  | cons d acc ih =>
    cases row with
    | nil =>
      cases h
      rfl
    | cons value row =>
      rw [foldRow] at h
      obtain ⟨e, -, h⟩ := exists_of_bind_eq_ok h
      obtain ⟨rest, hrest, h⟩ := exists_of_bind_eq_ok h
      cases h
      rw [List.length_cons, List.length_cons, ih hrest]

/-- NULL folds into NULL. -/
theorem fold_null (f : ColumnFold) (column : Nat) : f.fold column .null .null = .ok .null := by
  cases f <;> rfl

/-- Two rows of one width are folded column by column. -/
theorem column_foldRow {column : Nat} (hwidth : acc.length = row.length)
    (h : foldRow folds column acc row = .ok out) :
    (foldAt folds (column + j)).fold (column + j) (acc.column j) (row.column j) =
      .ok (out.column j) := by
  induction acc generalizing row out column j with
  | nil =>
    cases h
    rw [List.eq_nil_of_length_eq_zero hwidth.symm]
    exact fold_null _ _
  | cons d acc ih =>
    cases row with
    | nil => cases hwidth
    | cons value row =>
      rw [foldRow] at h
      obtain ⟨e, he, h⟩ := exists_of_bind_eq_ok h
      obtain ⟨rest, hrest, h⟩ := exists_of_bind_eq_ok h
      cases h
      cases j with
      | zero => exact he
      | succ j =>
        rw [← Nat.add_assoc, Nat.add_right_comm]
        exact ih (Nat.succ.inj hwidth) hrest

/-- The values to be combined stay in 128 bits at one scale. -/
def AlignedColumns (folds : List ColumnFold) (acc row : Row) : Prop :=
  ∀ j < folds.length, (foldAt folds j).Combines → (acc.column j).Aligned (row.column j)

/-- So do the values of some rows, wherever a row is folded into what became of those before it. -/
def AlignedFrom (folds : List ColumnFold) (acc : Row) : List Row → Prop
  | [] => True
  | row :: rest => AlignedColumns folds acc row ∧
      ∀ out ∈ (foldRow folds 0 acc row).toOption, AlignedFrom folds out rest

/-- The values to be combined are NULL, integers or decimals. -/
def CountableColumns (folds : List ColumnFold) (row : Row) : Prop :=
  ∀ j < folds.length, (foldAt folds j).Combines → (row.column j).Countable

instance : Decidable (AlignedColumns folds acc row) :=
  inferInstanceAs (Decidable (∀ j < folds.length, _ → _))

instance AlignedFrom.decidable (folds : List ColumnFold) (acc : Row) :
    (rows : List Row) → Decidable (AlignedFrom folds acc rows)
  | [] => .isTrue trivial
  | _ :: rest =>
    have := fun out => AlignedFrom.decidable folds out rest
    inferInstanceAs (Decidable (_ ∧ ∀ out ∈ (foldRow _ _ _ _).toOption, _))

instance : DecidablePred (CountableColumns folds) := fun _ =>
  inferInstanceAs (Decidable (∀ j < folds.length, _ → _))

/-- A step of the fold adds one value to each column. -/
theorem holds_foldRow {m : Multiset Datum} (hwidth : acc.length = row.length)
    (hcountable : CountableColumns folds row) (haligned : AlignedColumns folds acc row)
    (hacc : (foldAt folds j).Holds m (acc.column j)) (h : foldRow folds 0 acc row = .ok out) :
    (foldAt folds j).Holds (row.column j ::ₘ m) (out.column j) := by
  have hfold := column_foldRow (j := j) hwidth h
  rw [Nat.zero_add] at hfold
  exact hacc.fold (fun hj => hcountable j (lt_length_of_combines hj) hj)
    (fun hj => haligned j (lt_length_of_combines hj) hj) hfold

theorem holds_foldlM {m : Multiset Datum} (hacc : acc.length = n)
    (hwidth : ∀ row ∈ rest, row.length = n) (hcountable : ∀ row ∈ rest, CountableColumns folds row)
    (haligned : AlignedFrom folds acc rest) (hholds : (foldAt folds j).Holds m (acc.column j))
    (h : rest.foldlM (foldRow folds 0) acc = .ok out) :
    (foldAt folds j).Holds (m + ↑(rest.map (·.column j))) (out.column j) ∧ out.length = n := by
  induction rest generalizing acc m with
  | nil =>
    cases h
    rw [List.map_nil, Multiset.coe_nil, add_zero]
    exact ⟨hholds, hacc⟩
  | cons row rest ih =>
    rw [List.foldlM_cons] at h
    obtain ⟨next, hnext, h⟩ := exists_of_bind_eq_ok h
    have hrow := hacc.trans (hwidth row List.mem_cons_self).symm
    have hstep := holds_foldRow hrow (hcountable row List.mem_cons_self) haligned.1 hholds hnext
    rw [List.map_cons, ← Multiset.cons_coe, ← Multiset.singleton_add, ← add_assoc,
      add_comm m, Multiset.singleton_add]
    refine ih ((length_foldRow hnext).trans hacc) (fun r hr => hwidth r (List.mem_cons_of_mem _ hr))
      (fun r hr => hcountable r (List.mem_cons_of_mem _ hr)) (haligned.2 next ?_) hstep h
    rw [hnext]
    rfl

/-- The rows of a group, as they are folded into its first row. -/
def AlignedGroup (folds : List ColumnFold) : List Row → Prop
  | [] => True
  | first :: rest => AlignedFrom folds first rest

instance : DecidablePred (AlignedGroup folds)
  | [] => .isTrue trivial
  | _ :: _ => inferInstanceAs (Decidable (AlignedFrom _ _ _))

/-- What a group has in a column is what the fold of the column makes of its values. -/
theorem holds_foldGroup (hrows : rows ≠ []) (hwidth : ∀ row ∈ rows, row.length = n)
    (hcountable : ∀ row ∈ rows, CountableColumns folds row) (haligned : AlignedGroup folds rows)
    (h : foldGroup folds rows = .ok out) :
    (foldAt folds j).Holds ↑(rows.map (·.column j)) (out.column j) ∧ out.length = n := by
  cases rows with
  | nil => exact absurd rfl hrows
  | cons first rest =>
    have hfirst : (foldAt folds j).Holds {first.column j} (first.column j) :=
      ColumnFold.holds_singleton fun hj =>
        hcountable first List.mem_cons_self j (lt_length_of_combines hj) hj
    rw [List.map_cons, ← Multiset.cons_coe, ← Multiset.singleton_add]
    exact holds_foldlM (hwidth first List.mem_cons_self)
      (fun row hrow => hwidth row (List.mem_cons_of_mem _ hrow))
      (fun row hrow => hcountable row (List.mem_cons_of_mem _ hrow)) haligned hfirst h

/-- Two orders of the rows of a group agree on every column. -/
theorem foldGroup_agree {rows' : List Row} (hperm : rows'.Perm rows) (hrows : rows ≠ [])
    (hwidth : ∀ row ∈ rows, row.length = n) (hcountable : ∀ row ∈ rows, CountableColumns folds row)
    (haligned : AlignedGroup folds rows) (haligned' : AlignedGroup folds rows')
    (h : foldGroup folds rows = .ok out) (h' : foldGroup folds rows' = .ok out') :
    out.length = out'.length ∧
      ∀ j, (foldAt folds j).Agree (out.column j) (out'.column j) := by
  have hrows' : rows' ≠ [] := fun hnil => hrows (List.perm_nil.1 (hnil ▸ hperm.symm))
  have hholds := fun j => holds_foldGroup (j := j) hrows hwidth hcountable haligned h
  have hholds' := fun j => holds_foldGroup (j := j) hrows'
    (fun row hrow => hwidth row (hperm.mem_iff.1 hrow))
    (fun row hrow => hcountable row (hperm.mem_iff.1 hrow)) haligned' h'
  refine ⟨(hholds 0).2.trans (hholds' 0).2.symm, fun j => (hholds j).1.agree ?_⟩
  have hvalues : (↑(rows'.map (·.column j)) : Multiset Datum) = ↑(rows.map (·.column j)) :=
    Multiset.coe_eq_coe.2 (hperm.map _)
  exact hvalues ▸ (hholds' j).1

/-! ## Finishing rows -/

/-- An average whose parts are no averages is computed from its parts. -/
theorem getElem?_finishRow_average {count sum : Nat} (row : Row)
    (hi : folds[i]? = some (.average count sum))
    (hcount : ∀ n s, folds[count]? ≠ some (.average n s))
    (hsum : ∀ n s, folds[sum]? ≠ some (.average n s)) :
    (finishRow folds row)[i]? = row[i]?.map fun _ => averageOf row[count]? row[sum]? := by
  induction folds using List.reverseRecOn with
  | nil => cases hi
  | append_singleton folds f ih =>
    have hinit : ∀ {k : Nat}, (∀ n s, (folds ++ [f])[k]? ≠ some (.average n s)) →
        ∀ n s, folds[k]? ≠ some (.average n s) := fun hk n s heq =>
      hk n s (by rw [List.getElem?_append_left (List.getElem?_eq_some_iff.1 heq).1, heq])
    rw [finishRow_append]
    rcases Nat.lt_or_ge i folds.length with hlt | hge
    · rw [List.getElem?_append_left hlt] at hi
      have hrest := ih hi (hinit hcount) (hinit hsum)
      split
      · exact (List.getElem?_set_ne (Nat.ne_of_gt hlt)).trans hrest
      · exact hrest
    · have hlast : i = folds.length := by
        have hlt := (List.getElem?_eq_some_iff.1 hi).1
        rw [List.length_append, List.length_singleton] at hlt
        omega
      subst hlast
      rw [List.getElem?_concat_length] at hi
      cases hi
      have hown : ∀ n s, folds[folds.length]? ≠ some (.average n s) := fun n s heq => by
        rw [List.getElem?_eq_none (Nat.le_refl _)] at heq
        cases heq
      dsimp only
      rw [List.getElem?_set_self', getElem?_finishRow row (hinit hcount),
        getElem?_finishRow row (hinit hsum), getElem?_finishRow row hown]
      rfl

/-- Rows of one width with one value in a column. -/
theorem getElem?_eq_of_column (hlength : out.length = out'.length)
    (h : out.column j = out'.column j) : out[j]? = out'[j]? := by
  rcases Nat.lt_or_ge j out.length with hj | hj
  · rw [Row.column, Row.column, List.getElem?_eq_getElem hj,
      List.getElem?_eq_getElem (hlength ▸ hj), Option.getD_some, Option.getD_some] at h
    rw [List.getElem?_eq_getElem hj, List.getElem?_eq_getElem (hlength ▸ hj), h]
  · rw [List.getElem?_eq_none hj, List.getElem?_eq_none (hlength ▸ hj)]

end Sharding
