import Sharding.Proofs.Datum.Double
import Sharding.Proofs.Datum.Order

/-!
# Equality as a query sees it

A query compares values and not the forms they are given in: an integer and a decimal may be equal,
and so may two decimals of different scales.

* `Datum.equals_self_iff` says which datums are equal to themselves: all but NULL and the NaNs.
* `Datum.SameForm` says that two datums are of one form: integers of whatever width, decimals of one
  scale, floats other than zero, or values of one kind that is not numeric.  Equal datums of one
  form are the same datum, or the same integer in two widths (`Datum.SameForm.eq_or_ints`), so they
  have the same text.
-/

namespace Sharding

/-- Only a NaN differs from itself. -/
theorem compareFloats_self_iff {x : Float} : compareFloats x x = some .eq ↔ x ≠ Float.nan := by
  rw [compareFloats_eq, ← float_beq_iff, Float.beq_self_iff]

/-- Equal floats are the same float, but for the two zeros. -/
theorem float_eq_of_compare {x y : Float} (h : compareFloats x y = some .eq)
    (hzero : (x == 0) = false) : x = y := by
  rw [compareFloats_eq, ← float_beq_iff, Float.beq_iff_ne_nan_and_eq] at h
  have hnonzero : x ≠ 0 ∧ x ≠ -0 := by
    constructor <;> rintro rfl <;> exact absurd hzero (by decide)
  rcases h.2.2 with heq | ⟨heq, -⟩ | ⟨heq, -⟩
  · exact heq
  · exact absurd heq hnonzero.1
  · exact absurd heq hnonzero.2

/-- Equal floats have one pattern of bits, but for the two zeros. -/
theorem double_eq_of_compare {x y : Double} (h : compareFloats x.value y.value = some .eq)
    (hzero : (x.value == 0) = false) : x = y := by
  have hvalue := float_eq_of_compare h hzero
  refine Double.eq_of_value (compareFloats_self_iff.1 ?_) hvalue
  rw [← hvalue] at h
  exact h

theorem Decimal.compare_self (d : Decimal) : d.compare d = .eq := by
  unfold Decimal.compare Decimal.align
  simp only [Nat.compare_eq_eq.2 rfl]
  exact Std.ReflOrd.compare_self

/-- Equal decimals of one scale are the same decimal. -/
theorem Decimal.eq_of_compare {a b : Decimal} (h : a.compare b = .eq) (hscale : a.scale = b.scale) :
    a = b := by
  obtain ⟨m, s⟩ := a
  obtain ⟨n, s'⟩ := b
  cases hscale
  unfold Decimal.compare Decimal.align at h
  simp only [Nat.compare_eq_eq.2 rfl] at h
  rw [Int128.ext (Std.LawfulEqOrd.eq_of_compare h)]

namespace Datum

theorem equals_iff {a b : Datum} : a.equals b = true ↔ a.compare? b = some .eq := by
  rw [equals, beq_iff_eq]

/-- The datum is a NaN, of whatever sign and payload. -/
def isNaN : Datum → Bool
  | float64 x => x.value.isNaN
  | _ => false

/-- All datums are equal to themselves, but for NULL and the NaNs. -/
theorem equals_self_iff {d : Datum} : d.equals d = true ↔ d ≠ .null ∧ d.isNaN = false := by
  rw [equals_iff]
  have hself : ∀ {κ : Type} [Ord κ] [Std.ReflOrd κ] (x : κ), some (compare x x) = some .eq :=
    fun x => congrArg some Std.ReflOrd.compare_self
  cases d with
  | null => simp [compare?]
  | float64 x =>
    show compareFloats x.value x.value = some .eq ↔ _
    rw [compareFloats_self_iff, isNaN, Float.isNaN_eq_decide_eq_nan]
    simp
  | decimal d => simp [compare?, Decimal.compare_self, isNaN]
  | _ => simp [compare?, compareNumbers, toInt64?, isNaN]

/-- NULL is equal to nothing. -/
theorem isNull_of_equals {a b : Datum} (h : a.equals b = true) :
    a.isNull = false ∧ b.isNull = false := by
  rw [equals_iff] at h
  have hleft : ∀ d, Datum.null.compare? d = none := fun d => by cases d <;> rfl
  have hright : ∀ d : Datum, d.compare? .null = none := fun d => by cases d <;> rfl
  constructor
  · cases a with
    | null =>
      rw [hleft] at h
      cases h
    | _ => rfl
  · cases b with
    | null =>
      rw [hright] at h
      cases h
    | _ => rfl

/-- A value that is not numeric is equal to itself only. -/
theorem eq_of_not_number {a b : Datum} (h : a.equals b = true) (ha : a.toFloat? = none) :
    a = b := by
  rw [equals_iff] at h
  have hkey : ∀ {κ : Type} [Ord κ] [Std.LawfulEqOrd κ] {x y : κ},
      some (compare x y) = some .eq → x = y :=
    fun h => Std.LawfulEqOrd.eq_of_compare (Option.some.inj h)
  -- values of two kinds cannot be compared
  cases a <;> cases ha <;> cases b <;>
    first
      | exact congrArg _ (hkey h)
      | exact congrArg _ (Int64.toInt_inj.1 (hkey h))
      | exact congrArg _ (Int32.toInt_inj.1 (hkey h))
      | cases h

/-- Two datums of one form. -/
inductive SameForm : Datum → Datum → Prop
  /-- A datum and itself. -/
  | refl (d : Datum) : SameForm d d
  /-- Integers, of whatever width. -/
  | integers {a b : Datum} : a.toInt64?.isSome → b.toInt64?.isSome → SameForm a b
  /-- Decimals of one scale. -/
  | decimals {a b : Decimal} : a.scale = b.scale → SameForm (.decimal a) (.decimal b)
  /-- Floats, unless one is zero: there are two zeros. -/
  | floats {x y : Double} : (x.value == 0) = false → SameForm (.float64 x) (.float64 y)
  /-- Values that are not numeric. -/
  | others {a b : Datum} : a.toFloat? = none → SameForm a b

/-- Equal datums of one form are the same datum, or the same integer in two widths. -/
theorem SameForm.eq_or_ints {a b : Datum} (hform : a.SameForm b) (h : a.equals b = true) :
    a = b ∨ ∃ x, a.toInt64? = some x ∧ b.toInt64? = some x := by
  cases hform with
  | refl => exact .inl rfl
  | integers ha hb =>
    obtain ⟨x, hx⟩ := Option.isSome_iff_exists.1 ha
    obtain ⟨y, hy⟩ := Option.isSome_iff_exists.1 hb
    rw [equals_iff, compare?_ints hx hy] at h
    have hxy : x = y := Int64.toInt_inj.1 (Std.LawfulEqOrd.eq_of_compare (Option.some.inj h))
    exact .inr ⟨x, hx, hxy ▸ hy⟩
  | decimals hscale =>
    rw [equals_iff] at h
    exact .inl (congrArg _ (Decimal.eq_of_compare (Option.some.inj h) hscale))
  | floats hzero =>
    rw [equals_iff] at h
    exact .inl (congrArg _ (double_eq_of_compare h hzero))
  | others hnumber => exact .inl (eq_of_not_number h hnumber)

end Datum

/-- A row is equal to itself when it has no NULL and no NaN. -/
theorem Row.equals_self_iff {row : Row} :
    Row.equals row row = true ↔ ∀ d ∈ row, d ≠ .null ∧ d.isNaN = false := by
  induction row with
  | nil => simp [Row.equals]
  | cons d row ih =>
    rw [Row.equals, Bool.and_eq_true, Datum.equals_self_iff, ih, List.forall_mem_cons]

end Sharding
