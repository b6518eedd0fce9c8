import Sharding.Datum.Order
import Sharding.Proofs.Datum.Double
import Sharding.Proofs.Sorting.Orders

/-!
# The order of floats

The order of two floats is that of their unpacked forms (`compareFloats_eq`), and an unpacked form
that is no NaN is compared by a key of three numbers: a class, an exponent and a mantissa.  Both
infinities and both zeros have classes of their own, and below zero the exponent and the mantissa
count backwards.
-/

namespace Sharding

open Float.Model UnpackedFloat

/-- The unpacked form of a float. -/
def unpacked (x : Float) : UnpackedFloat :=
  x.toModel.unpack

/-- What floats other than NaN are compared by. -/
def floatKey : UnpackedFloat → Int × Int × Int
  | .infinity .negative => (-2, 0, 0)
  | .finite .negative m e _ => (-1, -e, -m)
  | .zero _ | .notANumber => (0, 0, 0)
  | .finite .positive m e _ => (1, e, m)
  | .infinity .positive => (2, 0, 0)

/-- The order of keys, the first component first. -/
def compareKeys (a b : Int × Int × Int) : Ordering :=
  (compare a.1 b.1).then ((compare a.2.1 b.2.1).then (compare a.2.2 b.2.2))

theorem compare_neg (a b : Int) : compare (-a) (-b) = (compare a b).swap := by
  rw [← Std.OrientedOrd.eq_swap]
  simp only [Int.compare_eq_ite_lt]
  split_ifs <;> first | rfl | omega

theorem compare_natCast (a b : Nat) : compare (a : Int) (b : Int) = compare a b := by
  simp only [Int.compare_eq_ite_lt, Nat.compare_eq_ite_lt, Int.ofNat_lt]

/-- Only a NaN cannot be compared. -/
theorem unpacked_compare {a b : UnpackedFloat} (ha : a ≠ .notANumber) (hb : b ≠ .notANumber) :
    a.compare b = some (compareKeys (floatKey a) (floatKey b)) := by
  cases a with
  | notANumber => exact absurd rfl ha
  | infinity s =>
    cases b with
    | notANumber => exact absurd rfl hb
    | infinity t => cases s <;> cases t <;> rfl
    | zero t => cases s <;> rfl
    | finite t m e h => cases s <;> cases t <;> rfl
  | zero s =>
    cases b with
    | notANumber => exact absurd rfl hb
    | infinity t => cases t <;> rfl
    | zero t => rfl
    | finite t m e h => cases t <;> rfl
  | finite s m e h =>
    cases b with
    | notANumber => exact absurd rfl hb
    | infinity t => cases s <;> cases t <;> rfl
    | zero t => cases s <;> rfl
    | finite t n f h' =>
      cases s with
      | negative =>
        cases t with
        | negative =>
          simp only [UnpackedFloat.compare, floatKey, compareKeys, compare_neg, compare_natCast]
          simp [Ordering.swap_then]
        | positive => rfl
      | positive =>
        cases t with
        | negative => rfl
        | positive =>
          simp only [UnpackedFloat.compare, floatKey, compareKeys, compare_natCast]
          simp

theorem compare_notANumber_left (b : UnpackedFloat) :
    UnpackedFloat.compare .notANumber b = none := rfl

theorem compare_notANumber_right (a : UnpackedFloat) :
    a.compare .notANumber = none := by
  cases a with
  | infinity s => cases s <;> rfl
  | finite s m e h => cases s <;> rfl
  | _ => rfl

theorem compareKeys_swap (a b : Int × Int × Int) : compareKeys b a = (compareKeys a b).swap := by
  simp only [compareKeys, Ordering.swap_then, ← Std.OrientedOrd.eq_swap]

/-- The order of keys is an order on all of them. -/
theorem ordersOn_compareKeys : Sorting.OrdersOn (fun _ => True) compareKeys := by
  have hclass : Sorting.OrdersOn (fun _ : Int × Int × Int => True)
      fun a b => compare a.1 b.1 := .of_key (·.1) fun _ _ _ _ => rfl
  have hexponent : Sorting.OrdersOn (fun _ : Int × Int × Int => True)
      fun a b => compare a.2.1 b.2.1 := .of_key (·.2.1) fun _ _ _ _ => rfl
  have hmantissa : Sorting.OrdersOn (fun _ : Int × Int × Int => True)
      fun a b => compare a.2.2 b.2.2 := .of_key (·.2.2) fun _ _ _ _ => rfl
  exact hclass.thenBy (hexponent.thenBy hmantissa)

theorem unpacked_compare_swap (a b : UnpackedFloat) :
    b.compare a = (a.compare b).map Ordering.swap := by
  by_cases ha : a = .notANumber
  · rw [ha, compare_notANumber_left, compare_notANumber_right]
    rfl
  · by_cases hb : b = .notANumber
    · rw [hb, compare_notANumber_left, compare_notANumber_right]
      rfl
    · rw [unpacked_compare ha hb, unpacked_compare hb ha, compareKeys_swap]
      rfl

theorem float_lt_iff (x y : Float) : x < y ↔ (unpacked x).compare (unpacked y) = some .lt := by
  show decide (x.toModel < y.toModel) = true ↔ _
  rw [decide_eq_true_eq]
  show (x.toModel.unpack.compare y.toModel.unpack == some .lt) = true ↔ _
  rw [beq_iff_eq]
  rfl

theorem float_beq_iff (x y : Float) : x == y ↔ (unpacked x).compare (unpacked y) = some .eq := by
  show (x.toModel.unpack.compare y.toModel.unpack == some .eq) = true ↔ _
  rw [beq_iff_eq]
  rfl

/-- The tests for less, equal and greater make up the order of the unpacked forms. -/
theorem compareFloats_eq (x y : Float) :
    compareFloats x y = (unpacked x).compare (unpacked y) := by
  unfold compareFloats
  simp only [float_lt_iff, float_beq_iff, unpacked_compare_swap (unpacked x)]
  cases (unpacked x).compare (unpacked y) with
  | none => rfl
  | some o => cases o <;> rfl

theorem compareFloats_swap (x y : Float) :
    compareFloats y x = (compareFloats x y).map Ordering.swap := by
  rw [compareFloats_eq, compareFloats_eq, unpacked_compare_swap]

/-- Floats other than NaN are compared by their keys. -/
theorem compareFloats_of_ne {x y : Float} (hx : unpacked x ≠ .notANumber)
    (hy : unpacked y ≠ .notANumber) :
    compareFloats x y = some (compareKeys (floatKey (unpacked x)) (floatKey (unpacked y))) := by
  rw [compareFloats_eq, unpacked_compare hx hy]

end Sharding
