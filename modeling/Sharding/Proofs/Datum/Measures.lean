import Sharding.Proofs.Datum.Equality
import Sharding.Proofs.Datum.FloatExact
import Sharding.Proofs.Datum.Number

/-!
# Values of one measure

Two numbers are compared in one of three ways: as integers, as numbers with decimal places, or as
floats.  Each way is an order, but they do not agree with each other, and values that cannot be
compared count as equal.  `Datum.Measured D` says that all values of the set `D` are compared in one
way; then their order is transitive (`Datum.Measured.transitiveOn`).  Floats and integers of at most
53 bits are compared as floats among themselves (`Datum.Measured.unrounded`).
-/

namespace Sharding

open Sorting

namespace Datum

/-- All values of a set are compared in one way. -/
inductive Measured (D : Datum → Prop) : Prop
  | booleans : (∀ d, D d → ∃ b, d = .boolean b) → Measured D
  | texts : (∀ d, D d → ∃ s, d = .text s) → Measured D
  | timestamps : (∀ d, D d → ∃ n, d = .timestamp n) → Measured D
  | dates : (∀ d, D d → ∃ n, d = .date n) → Measured D
  | byteStrings : (∀ d, D d → ∃ bytes, d = .bytea bytes) → Measured D
  /-- Integers and decimals that stay in 128 bits when two of them are compared. -/
  | numbers : (∀ d, D d → d.number?.isSome) → (∀ a b, D a → D b → a.Aligned b) → Measured D
  /-- Numbers of all kinds that are in the order of their floats, of which none is a NaN. -/
  | floats : (∀ d, D d → ∃ x, d.toFloat? = some x ∧ x ≠ Float.nan) →
      (∀ a b x y, D a → D b → a.toFloat? = some x → b.toFloat? = some y →
        a.compare? b = compareFloats x y) → Measured D

variable {D E : Datum → Prop}

theorem TransitiveOn.mono (h : TransitiveOn E) (hD : ∀ d, D d → E d) : TransitiveOn D :=
  fun a b c ha hb hc => h a b c (hD a ha) (hD b hb) (hD c hc)

theorem unpacked_ne_nan {x : Float} (h : x ≠ Float.nan) : unpacked x ≠ .notANumber := by
  intro hnan
  rw [← compareFloats_self_iff, compareFloats_eq, hnan] at h
  cases h

/-- Numbers that stay in 128 bits are in the order of what they stand for. -/
theorem TransitiveOn.numbers (hnumber : ∀ d, D d → d.number?.isSome)
    (haligned : ∀ a b, D a → D b → a.Aligned b) : TransitiveOn D := by
  refine .of_key (fun d => d.number?.getD 0) fun a b ha hb => ?_
  obtain ⟨x, hx⟩ := Option.isSome_iff_exists.1 (hnumber a ha)
  obtain ⟨y, hy⟩ := Option.isSome_iff_exists.1 (hnumber b hb)
  rw [compare?_numbers hx hy (haligned a b ha hb), hx, hy]
  rfl

/-- Numbers that are in the order of their floats are in order. -/
theorem TransitiveOn.rounded
    (hfloat : ∀ d, D d → ∃ x, d.toFloat? = some x ∧ x ≠ Float.nan)
    (hcompare : ∀ a b x y, D a → D b → a.toFloat? = some x → b.toFloat? = some y →
      a.compare? b = compareFloats x y) : TransitiveOn D := by
  have horder : ∀ {a b}, D a → D b → a.order b =
      compareKeys (floatKey (unpacked (a.toFloat?.getD 0)))
        (floatKey (unpacked (b.toFloat?.getD 0))) := by
    intro a b ha hb
    obtain ⟨x, hx, hxnan⟩ := hfloat a ha
    obtain ⟨y, hy, hynan⟩ := hfloat b hb
    rw [order, hcompare a b x y ha hb hx hy,
      compareFloats_of_ne (unpacked_ne_nan hxnan) (unpacked_ne_nan hynan), hx, hy]
    rfl
  intro a b c ha hb hc
  rw [horder ha hb, horder hb hc, horder ha hc]
  exact ordersOn_compareKeys.trans trivial trivial trivial

/-- Values that are compared in one way are in order. -/
theorem Measured.transitiveOn (h : Measured D) : TransitiveOn D := by
  cases h with
  | booleans h => exact TransitiveOn.booleans.mono h
  | texts h => exact TransitiveOn.texts.mono h
  | timestamps h => exact TransitiveOn.timestamps.mono h
  | dates h => exact TransitiveOn.dates.mono h
  | byteStrings h => exact TransitiveOn.byteStrings.mono h
  | numbers hnumber haligned => exact .numbers hnumber haligned
  | floats hfloat hcompare => exact .rounded hfloat hcompare

/-- A number that is a float as it stands: a float other than NaN, or an integer of at most 53
bits. -/
inductive Unrounded : Datum → Float → Prop
  | float {x : Double} : x.value ≠ Float.nan → Unrounded (.float64 x) x.value
  | integer {d : Datum} {n : Int64} : d.toInt64? = some n → n.toInt.natAbs < 2 ^ 53 →
      Unrounded d (Float.ofInt n.toInt)

theorem Unrounded.toFloat? {d : Datum} {x : Float} (h : Unrounded d x) :
    d.toFloat? = some x ∧ x ≠ Float.nan := by
  cases h with
  | float hnan => exact ⟨rfl, hnan⟩
  | integer hint hsmall =>
    constructor
    · rcases toInt_of_toInt64? hint with ⟨m, rfl, hm⟩ | rfl
      · rw [← hm]
        rfl
      · rfl
    · intro hnan
      have hunpacked : unpacked Float.nan = .notANumber := rfl
      rw [← hnan] at hunpacked
      exact unpacked_ofInt_ne_nan hsmall hunpacked

theorem Unrounded.compare? {a b : Datum} {x y : Float} (ha : Unrounded a x)
    (hb : Unrounded b y) : a.compare? b = compareFloats x y := by
  have hfloats : a.toInt64? = none ∨ b.toInt64? = none →
      compareNumbers a b = compareFloats x y := by
    intro hnone
    rw [compareNumbers_floats hnone, ha.toFloat?.1, hb.toFloat?.1]
    rfl
  cases ha with
  | float =>
    cases hb with
    | float => exact hfloats (.inl rfl)
    | integer hint =>
      rcases toInt_of_toInt64? hint with ⟨m, rfl, -⟩ | rfl <;> exact hfloats (.inl rfl)
  | integer hint hsmall =>
    cases hb with
    | float =>
      rcases toInt_of_toInt64? hint with ⟨m, rfl, -⟩ | rfl <;> exact hfloats (.inr rfl)
    | integer hint' hsmall' =>
      rw [compare?_ints hint hint', compareFloats_ofInt hsmall hsmall']

/-- Numbers that are floats as they stand are compared in one way. -/
theorem Measured.unrounded (h : ∀ d, D d → ∃ x, Unrounded d x) : Measured D := by
  refine .floats (fun d hd => ?_) fun a b x y ha hb hx hy => ?_
  · obtain ⟨x, hx⟩ := h d hd
    exact ⟨x, hx.toFloat?⟩
  · obtain ⟨x', hx'⟩ := h a ha
    obtain ⟨y', hy'⟩ := h b hb
    cases hx.symm.trans hx'.toFloat?.1
    cases hy.symm.trans hy'.toFloat?.1
    exact hx'.compare? hy'

end Datum

end Sharding
