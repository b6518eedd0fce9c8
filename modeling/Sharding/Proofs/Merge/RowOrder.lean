import Sharding.Merge.Order
import Sharding.Proofs.Datum.Order

/-!
# Sort keys as orders

Under a list of keys, rows are compared column by column, with a place of its own for NULL.  Where
the other values of every key column are in order, so are the rows (`ordersOn_compareRows`), and
`sortRows` finds the stable sort (`sortRows_eq`).
-/

namespace Sharding

open Sorting

theorem SortKey.compareValues_swap (key : SortKey) (a b : Datum) :
    key.compareValues b a = (key.compareValues a b).swap := by
  unfold SortKey.compareValues
  cases a.isNull <;> cases b.isNull
  · cases key.direction <;> simp [Datum.order_swap a b]
  · cases key.nulls <;> rfl
  · cases key.nulls <;> rfl
  · rfl

theorem SortKey.compareValues_values (key : SortKey) {a b : Datum} (ha : a.isNull = false)
    (hb : b.isNull = false) : key.compareValues a b =
      match key.direction with
      | .asc => a.order b
      | .desc => b.order a := by
  rw [SortKey.compareValues, ha, hb]
  cases key.direction
  · rfl
  · exact (Datum.order_swap a b).symm

/-- Values are in order under a key when those other than NULL are in order by themselves. -/
theorem ordersOn_compareValues (key : SortKey) {D : Datum → Prop} (h : Datum.TransitiveOn D) :
    OrdersOn (fun v => v.isNull ∨ D v) key.compareValues where
  swap _ _ := key.compareValues_swap _ _
  trans {a b c} ha hb hc hab hbc := by
    by_cases hnull : a.isNull ∨ b.isNull ∨ c.isNull
    · -- a NULL among the three is placed by itself, and the others do not matter
      unfold SortKey.compareValues at *
      cases hna : a.isNull <;> cases hnb : b.isNull <;> cases hnc : c.isNull <;>
        cases hnulls : key.nulls <;> simp_all
    · simp only [not_or, Bool.not_eq_true] at hnull
      obtain ⟨hna, hnb, hnc⟩ := hnull
      have ha : D a := by simpa [hna] using ha
      have hb : D b := by simpa [hnb] using hb
      have hc : D c := by simpa [hnc] using hc
      rw [key.compareValues_values hna hnb] at hab
      rw [key.compareValues_values hnb hnc] at hbc
      rw [key.compareValues_values hna hnc]
      cases hdirection : key.direction <;> rw [hdirection] at hab hbc
      · exact h a b c ha hb hc hab hbc
      · exact h c b a hc hb ha hbc hab

/-- In every key column, the values other than NULL come from a set on which their order is
transitive. -/
def ComparableColumns (keys : List SortKey) (rows : List Row) : Prop :=
  ∀ key ∈ keys, ∃ D, Datum.TransitiveOn D ∧
    ∀ row ∈ rows, (row.column key.index).isNull ∨ D (row.column key.index)

theorem ComparableColumns.mono {keys : List SortKey} {rows rows' : List Row}
    (h : ComparableColumns keys rows) (hrows : ∀ row ∈ rows', row ∈ rows) :
    ComparableColumns keys rows' := by
  intro key hkey
  obtain ⟨D, hD, hmem⟩ := h key hkey
  exact ⟨D, hD, fun row hrow => hmem row (hrows row hrow)⟩

/-- Rows whose key columns are comparable are in order. -/
theorem ordersOn_compareRows {keys : List SortKey} {rows : List Row}
    (h : ComparableColumns keys rows) : OrdersOn (· ∈ rows) (compareRows keys) := by
  induction keys with
  | nil => exact ⟨fun _ _ => rfl, fun _ _ _ _ _ => by simp [compareRows]⟩
  | cons key keys ih =>
    obtain ⟨D, hD, hmem⟩ := h key List.mem_cons_self
    have hfirst : OrdersOn (· ∈ rows) fun a b : Row =>
        key.compareValues (a.column key.index) (b.column key.index) :=
      ((ordersOn_compareValues key hD).comap (Row.column · key.index)).mono hmem
    exact hfirst.thenBy (ih fun k hk => h k (List.mem_cons_of_mem _ hk))

/-- The stable sort of rows by their keys. -/
def stablySorted (keys : List SortKey) (rows : List Row) : List Row :=
  rows.mergeSort fun a b => compareRows keys a b != .gt

theorem sortRows_eq {keys : List SortKey} {rows : List Row} (h : ComparableColumns keys rows) :
    sortRows keys rows = some (stablySorted keys rows) :=
  adaptive_eq (ordersOn_compareRows h) fun _ hrow => hrow

theorem pairwise_stablySorted {keys : List SortKey} {rows : List Row}
    (h : ComparableColumns keys rows) :
    (stablySorted keys rows).Pairwise fun a b => compareRows keys a b ≠ .gt :=
  pairwise_mergeSort (ordersOn_compareRows h) fun _ hrow => hrow

end Sharding
