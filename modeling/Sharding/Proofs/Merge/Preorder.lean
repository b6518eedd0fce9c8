import Sharding.Proofs.Datum.Measures
import Sharding.Proofs.Merge.RowOrder

/-!
# How far rows are in order

Swapping two rows swaps their order, whatever they hold (`compareRows_swap`).  Transitivity is there
where the values of each key column, but for NULL, are compared in one way.  It is lost where they
are compared in several, and where a value cannot be compared with two others that differ: it ties
with both of them (`compareRows_preorder`).
-/

namespace Sharding

/-- Swapping two rows swaps their order. -/
theorem compareRows_swap (keys : List SortKey) (a b : Row) :
    compareRows keys b a = (compareRows keys a b).swap := by
  induction keys with
  | nil => rfl
  | cons key keys ih =>
    rw [compareRows, compareRows, key.compareValues_swap, ih, Ordering.swap_then]

/-- Under one key, rows tie exactly if their values do. -/
theorem compareRows_eq_iff {key : SortKey} {a b : Row}
    (ha : (a.column key.index).isNull = false) (hb : (b.column key.index).isNull = false) :
    compareRows [key] a b = .eq ↔ (a.column key.index).order (b.column key.index) = .eq := by
  have hsingle : compareRows [key] a b =
      key.compareValues (a.column key.index) (b.column key.index) := Ordering.then_eq
  rw [hsingle, key.compareValues_values ha hb]
  cases key.direction with
  | asc => rfl
  | desc => rw [Datum.order_swap, Ordering.swap_eq_eq]

/-- The values of each key column, but for NULL, are compared in one way. -/
def MeasuredColumns (keys : List SortKey) (rows : List Row) : Prop :=
  ∀ key ∈ keys, Datum.Measured fun d =>
    d.isNull = false ∧ ∃ row ∈ rows, row.column key.index = d

theorem MeasuredColumns.comparable {keys : List SortKey} {rows : List Row}
    (h : MeasuredColumns keys rows) : ComparableColumns keys rows := by
  intro key hkey
  refine ⟨_, (h key hkey).transitiveOn, fun row hrow => ?_⟩
  cases hnull : (row.column key.index).isNull with
  | true => exact .inl rfl
  | false => exact .inr ⟨rfl, row, hrow, rfl⟩

/-- The order of any two rows is the reverse of that of the swapped rows, and rows are in order if
the values of each key column are compared in one way.  They are in no order if a value cannot be
compared with two others that differ. -/
theorem compareRows_preorder (keys : List SortKey) (a b c : Row) :
    compareRows keys b a = (compareRows keys a b).swap ∧
      (MeasuredColumns keys [a, b, c] →
        compareRows keys a b ≠ .gt → compareRows keys b c ≠ .gt → compareRows keys a c ≠ .gt) ∧
      ∀ key : SortKey, (∀ row ∈ [a, b, c], (row.column key.index).isNull = false) →
        (a.column key.index).compare? (b.column key.index) = none →
        (b.column key.index).compare? (c.column key.index) = none →
        (a.column key.index).order (c.column key.index) ≠ .eq →
        compareRows [key] a b = .eq ∧ compareRows [key] b c = .eq ∧ compareRows [key] a c ≠ .eq := by
  refine ⟨compareRows_swap keys a b, fun hmeasured => ?_, fun key hvalues hab hbc hac => ?_⟩
  · have horders := ordersOn_compareRows hmeasured.comparable
    exact horders.trans (by simp) (by simp) (by simp)
  · have ha := hvalues a (by simp)
    have hb := hvalues b (by simp)
    have hc := hvalues c (by simp)
    refine ⟨(compareRows_eq_iff ha hb).2 ?_, (compareRows_eq_iff hb hc).2 ?_, ?_⟩
    · rw [Datum.order, hab]
      rfl
    · rw [Datum.order, hbc]
      rfl
    · rwa [Ne, compareRows_eq_iff ha hc]

/-- Integers and decimals are compared in one way, and so are small integers and floats.  NULL has a
place of its own.  A text ties with two integers that differ. -/
theorem compareRows_preorder_amounts :
    MeasuredColumns [⟨0, .desc, .last⟩, ⟨1, .asc, .first⟩]
        [[.int32 2, .float64 (.ofFloat 1.5)], [.decimal ⟨.wrap 20, 1⟩, .int64 3],
          [.int64 1, .null]] ∧
      compareRows [⟨0, .desc, .last⟩, ⟨1, .asc, .first⟩]
        [.int32 2, .float64 (.ofFloat 1.5)] [.decimal ⟨.wrap 20, 1⟩, .int64 3] ≠ .gt ∧
      compareRows [⟨0, .desc, .last⟩, ⟨1, .asc, .first⟩]
        [.decimal ⟨.wrap 20, 1⟩, .int64 3] [.int64 1, .null] ≠ .gt ∧
      compareRows [⟨0, .desc, .last⟩, ⟨1, .asc, .first⟩]
        [.int32 2, .float64 (.ofFloat 1.5)] [.int64 1, .null] ≠ .gt ∧
      compareRows [⟨0, .asc, .first⟩] [.int64 2] [.text "a"] = .eq ∧
      compareRows [⟨0, .asc, .first⟩] [.text "a"] [.int64 1] = .eq ∧
      compareRows [⟨0, .asc, .first⟩] [.int64 2] [.int64 1] ≠ .eq := by
  have hmeasured : MeasuredColumns [⟨0, .desc, .last⟩, ⟨1, .asc, .first⟩]
      [[.int32 2, .float64 (.ofFloat 1.5)], [.decimal ⟨.wrap 20, 1⟩, .int64 3],
        [.int64 1, .null]] := by
    simp only [MeasuredColumns, List.forall_mem_cons, List.exists_mem_cons_iff, List.not_mem_nil,
      false_and, exists_false, or_false]
    refine ⟨.numbers ?_ ?_, .unrounded ?_, fun key hkey => absurd hkey (by simp)⟩
    · rintro d ⟨-, rfl | rfl | rfl⟩ <;> rfl
    · rintro d e ⟨-, rfl | rfl | rfl⟩ ⟨-, rfl | rfl | rfl⟩ <;> decide
    · rintro d ⟨hnull, rfl | rfl | rfl⟩
      · exact ⟨1.5, .float (by decide)⟩
      · exact ⟨_, .integer rfl (by decide)⟩
      · cases hnull
  have hfirst : compareRows [⟨0, .desc, .last⟩, ⟨1, .asc, .first⟩]
      [.int32 2, .float64 (.ofFloat 1.5)] [.decimal ⟨.wrap 20, 1⟩, .int64 3] ≠ .gt := by decide
  have hsecond : compareRows [⟨0, .desc, .last⟩, ⟨1, .asc, .first⟩]
      [.decimal ⟨.wrap 20, 1⟩, .int64 3] [.int64 1, .null] ≠ .gt := by decide
  exact ⟨hmeasured, hfirst, hsecond, (compareRows_preorder _ _ _ _).2.1 hmeasured hfirst hsecond,
    (compareRows_preorder [⟨0, .asc, .first⟩] [.int64 2] [.text "a"] [.int64 1]).2.2
      ⟨0, .asc, .first⟩ (by decide) (by decide) (by decide) (by decide)⟩

/-- The integers `2 ^ 53` and `2 ^ 53 + 1` have one float, and so a float stands with both of them,
as do a text and a NaN with any two numbers: no one of these orders is transitive. -/
theorem compareRows_cycles :
    compareRows [⟨0, .asc, .first⟩] [.int64 9007199254740993]
        [.float64 (.ofFloat 9007199254740992)] ≠ .gt ∧
      compareRows [⟨0, .asc, .first⟩] [.float64 (.ofFloat 9007199254740992)]
        [.int64 9007199254740992] ≠ .gt ∧
      compareRows [⟨0, .asc, .first⟩] [.int64 9007199254740993] [.int64 9007199254740992] = .gt ∧
      compareRows [⟨0, .asc, .first⟩] [.int64 2] [.text "a"] ≠ .gt ∧
      compareRows [⟨0, .asc, .first⟩] [.text "a"] [.int64 1] ≠ .gt ∧
      compareRows [⟨0, .asc, .first⟩] [.int64 2] [.int64 1] = .gt ∧
      compareRows [⟨0, .asc, .first⟩] [.float64 (.ofFloat 2)]
        [.float64 (.ofFloat Float.nan)] ≠ .gt ∧
      compareRows [⟨0, .asc, .first⟩] [.float64 (.ofFloat Float.nan)]
        [.float64 (.ofFloat 1)] ≠ .gt ∧
      compareRows [⟨0, .asc, .first⟩] [.float64 (.ofFloat 2)] [.float64 (.ofFloat 1)] = .gt := by
  refine ⟨?_, ?_, ?_, ?_, ?_, ?_, ?_, ?_, ?_⟩ <;> decide

end Sharding
