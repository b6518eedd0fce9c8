import Sharding.Proofs.Datum.FloatOrder

/-!
# The order of datums

Swapping two datums swaps their order, for datums of all kinds (`order_swap`).  Transitivity is
lost where kinds mix: what cannot be compared counts as equal, and a decimal may wrap around when it
is scaled.  `TransitiveOn D` says that it holds on the set `D`, which is so for integers of both
widths, for floats without NaN, and for each kind that is compared by a key.
-/

namespace Sharding

open Sorting

/-- Two decimals are brought to one scale in either order. -/
theorem Decimal.compare_swap (a b : Decimal) : b.compare a = (a.compare b).swap := by
  unfold Decimal.compare Decimal.align
  rcases Nat.lt_trichotomy a.scale.toNat b.scale.toNat with h | h | h
  · simp only [Nat.compare_eq_lt.2 h, Nat.compare_eq_gt.2 h]
    exact Std.OrientedOrd.eq_swap
  · simp only [h, Nat.compare_eq_eq.2 rfl]
    exact Std.OrientedOrd.eq_swap
  · simp only [Nat.compare_eq_lt.2 h, Nat.compare_eq_gt.2 h]
    exact Std.OrientedOrd.eq_swap

namespace Datum

theorem compareNumbers_ints {a b : Datum} {x y : Int64} (ha : a.toInt64? = some x)
    (hb : b.toInt64? = some y) : compareNumbers a b = some (compare x.toInt y.toInt) := by
  rw [compareNumbers, ha, hb]

theorem toInt_of_toInt64? {d : Datum} {k : Int64} (h : d.toInt64? = some k) :
    (∃ n, d = .int32 n ∧ n.toInt = k.toInt) ∨ d = .int64 k := by
  cases d with
  | int32 n =>
    cases h
    exact .inl ⟨n, rfl, (Int32.toInt_toInt64 n).symm⟩
  | int64 n =>
    cases h
    exact .inr rfl
  | _ => cases h

theorem isNull_of_toInt64? {d : Datum} {k : Int64} (h : d.toInt64? = some k) :
    d.isNull = false := by
  rcases toInt_of_toInt64? h with ⟨n, rfl, -⟩ | rfl <;> rfl

/-- Two integers of either width are compared as integers. -/
theorem compare?_ints {a b : Datum} {x y : Int64} (ha : a.toInt64? = some x)
    (hb : b.toInt64? = some y) : a.compare? b = some (compare x.toInt y.toInt) := by
  have hnumbers := compareNumbers_ints ha hb
  rcases toInt_of_toInt64? ha with ⟨m, rfl, -⟩ | rfl <;>
    rcases toInt_of_toInt64? hb with ⟨n, rfl, -⟩ | rfl <;> exact hnumbers

/-- Unless both are integers, two numbers are compared as floats. -/
theorem compareNumbers_floats {a b : Datum} (h : a.toInt64? = none ∨ b.toInt64? = none) :
    compareNumbers a b =
      a.toFloat?.bind fun x => b.toFloat?.bind fun y => compareFloats x y := by
  rw [compareNumbers]
  rcases h with h | h
  · rw [h]
    cases a.toFloat? <;> cases b.toFloat? <;> cases b.toInt64? <;> rfl
  · rw [h]
    cases a.toFloat? <;> cases b.toFloat? <;> cases a.toInt64? <;> rfl

theorem compareNumbers_swap (a b : Datum) :
    compareNumbers b a = (compareNumbers a b).map Ordering.swap := by
  cases ha : a.toInt64? with
  | none =>
    rw [compareNumbers_floats (.inl ha), compareNumbers_floats (.inr ha)]
    cases a.toFloat? <;> cases b.toFloat? <;> first | rfl | exact compareFloats_swap _ _
  | some x =>
    cases hb : b.toInt64? with
    | none =>
      rw [compareNumbers_floats (.inl hb), compareNumbers_floats (.inr hb)]
      cases a.toFloat? <;> cases b.toFloat? <;> first | rfl | exact compareFloats_swap _ _
    | some y =>
      rw [compareNumbers_ints ha hb, compareNumbers_ints hb ha]
      exact congrArg some Std.OrientedOrd.eq_swap

theorem compare?_swap (a b : Datum) : b.compare? a = (a.compare? b).map Ordering.swap := by
  have hnumbers := compareNumbers_swap a b
  cases a <;> cases b <;>
    first
      | rfl
      | exact hnumbers
      | exact congrArg some Std.OrientedOrd.eq_swap
      | exact congrArg some (Decimal.compare_swap _ _)
      | exact congrArg some (Ordering.swap_swap).symm

/-- Swapping two datums swaps their order. -/
theorem order_swap (a b : Datum) : b.order a = (a.order b).swap := by
  unfold order
  rw [compare?_swap a b]
  cases a.compare? b <;> rfl

theorem eq_int_of_isSome {d : Datum} (h : d.toInt64?.isSome) :
    (∃ n, d = .int32 n) ∨ ∃ n, d = .int64 n := by
  cases d with
  | int32 n => exact .inl ⟨n, rfl⟩
  | int64 n => exact .inr ⟨n, rfl⟩
  | _ => cases h

/-- On the values of a set, the order is transitive. -/
def TransitiveOn (D : Datum → Prop) : Prop :=
  ∀ a b c, D a → D b → D c → a.order b ≠ .gt → b.order c ≠ .gt → a.order c ≠ .gt

namespace TransitiveOn

variable {D : Datum → Prop}

theorem of_ordersOn (h : OrdersOn D order) : TransitiveOn D :=
  fun _ _ _ ha hb hc => h.trans ha hb hc

/-- Values that are compared by a key are in order. -/
theorem of_key {κ : Type} [Ord κ] [Std.TransOrd κ] (key : Datum → κ)
    (h : ∀ a b, D a → D b → a.compare? b = some (compare (key a) (key b))) : TransitiveOn D :=
  of_ordersOn <| .of_key key fun a b ha hb => by rw [order, h a b ha hb]; rfl

/-- The values that a kind makes of what it compares by a key are in order. -/
theorem range {ι κ : Type} [Ord κ] [Std.TransOrd κ] (make : ι → Datum) (key : ι → κ)
    (h : ∀ x y, (make x).compare? (make y) = some (compare (key x) (key y))) :
    TransitiveOn fun d => ∃ x, d = make x := by
  rintro a b c ⟨x, rfl⟩ ⟨y, rfl⟩ ⟨z, rfl⟩
  have hkey : OrdersOn (fun _ => True) fun x y => (make x).order (make y) :=
    .of_key key fun x y _ _ => by rw [order, h x y]; rfl
  exact hkey.trans trivial trivial trivial

theorem booleans : TransitiveOn fun d => ∃ b, d = .boolean b :=
  range .boolean id fun _ _ => rfl

theorem texts : TransitiveOn fun d => ∃ s, d = .text s :=
  range .text id fun _ _ => rfl

theorem timestamps : TransitiveOn fun d => ∃ n, d = .timestamp n :=
  range .timestamp Int64.toInt fun _ _ => rfl

theorem dates : TransitiveOn fun d => ∃ n, d = .date n :=
  range .date Int32.toInt fun _ _ => rfl

theorem byteStrings : TransitiveOn fun d => ∃ bytes, d = .bytea bytes :=
  range .bytea id fun _ _ => rfl

/-- Integers of both widths are in order together. -/
theorem integers : TransitiveOn fun d => d.toInt64?.isSome := by
  refine of_key (fun d => (d.toInt64?.getD 0).toInt) fun a b ha hb => ?_
  rcases eq_int_of_isSome ha with ⟨x, rfl⟩ | ⟨x, rfl⟩ <;>
    rcases eq_int_of_isSome hb with ⟨y, rfl⟩ | ⟨y, rfl⟩ <;> rfl

/-- Floats are in order as long as none of them is a NaN. -/
theorem floats : TransitiveOn fun d => ∃ x, d = .float64 x ∧ unpacked x.value ≠ .notANumber := by
  rintro a b c ⟨x, rfl, hx⟩ ⟨y, rfl, hy⟩ ⟨z, rfl, hz⟩
  have horder : ∀ {x y : Double}, unpacked x.value ≠ .notANumber →
      unpacked y.value ≠ .notANumber → (float64 x).order (float64 y) =
        compareKeys (floatKey (unpacked x.value)) (floatKey (unpacked y.value)) := by
    intro x y hx hy
    show (compareFloats x.value y.value).getD .eq = _
    rw [compareFloats_of_ne hx hy]
    rfl
  rw [horder hx hy, horder hy hz, horder hx hz]
  exact ordersOn_compareKeys.trans trivial trivial trivial

end TransitiveOn

end Datum

end Sharding
