import Sharding.Proofs.Datum.Number
import Sharding.Proofs.Merge.Totals

/-!
# Exact addition

Two integers are added in 64 bits.  Where one of the numbers is a decimal, both are brought to the
larger scale and added there in 128 bits.  A sum that is exact, or refused because it or a number
does not fit, is an `ExactSum`.

All sums are, but two kinds.  A decimal is brought to a larger scale without a look at whether it
fits, so two decimals of which one leaves 128 bits there (`Wraps`) are added by their low bits.  And
an integer is brought to a scale by its power of ten, which has to fit by itself, so that zero is
refused at the scales from 39 on (`RefusesZero`).
-/

namespace Sharding

/-! ## Powers of ten in 128 bits -/

theorem Int128.fits_tenTo_iff {s : Nat} : Fits (tenTo s) ↔ s < 39 := by
  have hlarge : tenTo 39 = 1000000000000000000000000000000000000000 := rfl
  have hsmall : tenTo 38 = 100000000000000000000000000000000000000 := rfl
  rw [Fits]
  constructor
  · intro h
    by_contra hs
    have hle : tenTo 39 ≤ tenTo s := Nat.pow_le_pow_right (by decide) (by omega)
    omega
  · intro h
    have hle : tenTo s ≤ tenTo 38 := Nat.pow_le_pow_right (by decide) (by omega)
    omega

theorem Int128.isSome_ofInt? {n : Int} : (ofInt? n).isSome ↔ Fits n := by
  unfold ofInt?
  split <;> simp_all

/-- A multiple that fits and is not zero is of a number that fits. -/
theorem Int128.fits_of_mul_tenTo {n : Int} {s : Nat} (h : Fits (n * tenTo s)) (hn : n ≠ 0) :
    Fits (tenTo s) := by
  rw [fits_tenTo_iff]
  by_contra hs
  have hlarge : tenTo 39 = 1000000000000000000000000000000000000000 := rfl
  have hten : tenTo 39 ≤ tenTo s := Nat.pow_le_pow_right (by decide) (by omega)
  obtain ⟨hlow, hhigh⟩ := h
  rcases Int.lt_or_gt_of_ne hn with hneg | hpos
  · have hmul : n * (tenTo s : Int) ≤ -1 * tenTo s :=
      Int.mul_le_mul_of_nonneg_right (by omega) (by omega)
    omega
  · have hmul : 1 * (tenTo s : Int) ≤ n * tenTo s :=
      Int.mul_le_mul_of_nonneg_right (by omega) (by omega)
    omega

namespace Decimal

theorem scaleUp_zero (m : Int128) : scaleUp m 0 = m := by
  rw [scaleUp, tenTo_zero]
  simp

/-- Each mantissa is brought up by the places that its scale lacks. -/
theorem align_scaleUp (a b : Decimal) :
    (align a b).1 = scaleUp a.mantissa (b.scale.toNat - a.scale.toNat) ∧
      (align a b).2.1 = scaleUp b.mantissa (a.scale.toNat - b.scale.toNat) ∧
      (align a b).2.2.toNat = max a.scale.toNat b.scale.toNat := by
  unfold align
  rcases Nat.lt_trichotomy a.scale.toNat b.scale.toNat with h | h | h
  · have hle := Nat.le_of_lt h
    rw [Nat.compare_eq_lt.2 h, Nat.sub_eq_zero_of_le hle, scaleUp_zero, Nat.max_eq_right hle]
    simp
  · simp [h, scaleUp_zero]
  · have hle := Nat.le_of_lt h
    rw [Nat.compare_eq_gt.2 h, Nat.sub_eq_zero_of_le hle, scaleUp_zero, Nat.max_eq_left hle]
    simp

theorem add?_comm (a b : Decimal) : a.add? b = b.add? a := by
  obtain ⟨hleft, hright, hscale⟩ := align_scaleUp a b
  obtain ⟨hleft', hright', hscale'⟩ := align_scaleUp b a
  have hsame : (align b a).2.2 = (align a b).2.2 := by
    rw [← UInt8.toNat_inj, hscale, hscale', Nat.max_comm]
  simp only [add?]
  rw [hsame, hleft, hright, hleft', hright', Int.add_comm]

/-- Decimals are added as they stand at the larger scale, with the bits that are left of them. -/
theorem map_digits_add? (a b : Decimal) :
    (a.add? b).map (fun d => (d.mantissa.toInt, d.scale.toNat)) = (Int128.ofInt?
      ((scaleUp a.mantissa (b.scale.toNat - a.scale.toNat)).toInt +
        (scaleUp b.mantissa (a.scale.toNat - b.scale.toNat)).toInt)).map
      fun sum => (sum.toInt, max a.scale.toNat b.scale.toNat) := by
  obtain ⟨hleft, hright, hscale⟩ := align_scaleUp a b
  simp only [add?, hleft, hright, Option.map_map, Function.comp_def, hscale]

/-- A sum with an integer is refused where the power of ten, the integer or the sum does not fit. -/
theorem isSome_addInt? {d : Decimal} {n : Int} :
    (d.addInt? n).isSome ↔ Int128.Fits (tenTo d.scale.toNat) ∧
      Int128.Fits (n * tenTo d.scale.toNat) ∧
      Int128.Fits (d.mantissa.toInt + n * tenTo d.scale.toNat) := by
  have hsum : ∀ {k : Int} {m : Int128}, Int128.ofInt? k = some m → m.toInt = k :=
    Int128.ofInt?_eq_some.1
  rw [← Int128.isSome_ofInt?, ← Int128.isSome_ofInt?, ← Int128.isSome_ofInt?, addInt?]
  cases hpower : Int128.ofInt? (tenTo d.scale.toNat) with
  | none => simp
  | some power =>
    cases hscaled : Int128.ofInt? (n * tenTo d.scale.toNat) with
    | none => simp [hsum hpower, hscaled]
    | some scaled => simp [hsum hpower, hscaled, hsum hscaled, Option.isSome_bind]

end Decimal

namespace Datum

/-! ## What a sum should be -/

/-- NULL, an integer or a decimal. -/
def Addend (d : Datum) : Prop :=
  d = null ∨ d.digits?.isSome

/-- Two numbers fit at the larger of their scales, and so does their sum: in 64 bits for two
integers, in 128 bits otherwise. -/
def SumFits (a b : Datum) : Prop :=
  a.Aligned b ∧ ∀ p ∈ a.digits?, ∀ q ∈ b.digits?,
    if a.toInt64?.isSome ∧ b.toInt64?.isSome then FitsInt64 (p.1 + q.1)
    else Int128.Fits (p.1 * tenTo (q.2 - p.2) + q.1 * tenTo (p.2 - q.2))

instance (a b : Datum) : Decidable (a.SumFits b) :=
  inferInstanceAs (Decidable (_ ∧ ∀ p ∈ a.digits?, ∀ q ∈ b.digits?,
    if a.toInt64?.isSome ∧ b.toInt64?.isSome then FitsInt64 (p.1 + q.1)
    else Int128.Fits (p.1 * tenTo (q.2 - p.2) + q.1 * tenTo (p.2 - q.2))))

/-- The sum of two numbers at the larger of their scales, as an integer of 64 bits or as a decimal.
There is none only where it or one of the numbers does not fit. -/
def ExactSum (a b : Datum) : Option Datum → Prop
  | some out => a.SumFits b ∧
      (∃ x y, a.number? = some x ∧ b.number? = some y ∧ out.number? = some (x + y)) ∧
      out.scale? = a.scale? ⊔ b.scale? ∧ ∀ n, out ≠ int32 n
  | none => ¬ a.SumFits b

/-- The sum of the low 128 bits of two numbers at the larger of their scales. -/
def LowBitsSum (a b : Datum) (out : Option Datum) : Prop :=
  ∀ p ∈ a.digits?, ∀ q ∈ b.digits?, out.map digits? =
    (Int128.ofInt? ((Int128.wrap (p.1 * tenTo (q.2 - p.2))).toInt +
      (Int128.wrap (q.1 * tenTo (p.2 - q.2))).toInt)).map
      fun sum => some (sum.toInt, max p.2 q.2)

/-- Two decimals of which one leaves 128 bits at the larger scale. -/
def Wraps (a b : Datum) : Prop :=
  a.toInt64? = none ∧ b.toInt64? = none ∧ ¬ a.Aligned b

instance (a b : Datum) : Decidable (a.Wraps b) :=
  inferInstanceAs (Decidable (_ ∧ _ ∧ ¬ _))

/-- Zero as an integer, and a decimal whose scale has a power of ten beyond 128 bits. -/
def RefusesZero (a b : Datum) : Prop :=
  ∃ e : Decimal, 39 ≤ e.scale.toNat ∧
    (a.toInt64? = some 0 ∧ b = decimal e ∨ a = decimal e ∧ b.toInt64? = some 0)

variable {a b : Datum}

theorem SumFits.symm (h : a.SumFits b) : b.SumFits a := by
  refine ⟨h.1.symm, fun q hq p hp => ?_⟩
  have hsum := h.2 p hp q hq
  split at hsum
  next hints =>
    rw [if_pos hints.symm, Int.add_comm]
    exact hsum
  next hints =>
    rw [if_neg (mt And.symm hints), Int.add_comm]
    exact hsum

/-- It is enough to know when there is a sum. -/
theorem exactSum_of_isSome {x y : ℚ} (ha : a.number? = some x) (hb : b.number? = some y)
    (h : (a.add? b).isSome ↔ a.SumFits b) : a.ExactSum b (a.add? b) := by
  cases hsum : a.add? b with
  | none => simpa [ExactSum, hsum] using h
  | some out =>
    have hfits : a.SumFits b := h.1 (by simp [hsum])
    have hexact := add?_number ha hb hfits.1 hsum
    exact ⟨hfits, ⟨x, y, ha, hb, hexact.1⟩, hexact.2⟩

/-! ## Integers -/

theorem digits?_of_toInt64? {k : Int64} (h : a.toInt64? = some k) :
    a.digits? = some (k.toInt, 0) := by
  rcases toInt_of_toInt64? h with ⟨n, rfl, hn⟩ | rfl
  · simp [digits?, hn]
  · rfl

section Ints

variable {k l : Int64} (ha : a.toInt64? = some k) (hb : b.toInt64? = some l)
include ha hb

theorem add?_ints_comm : a.add? b = b.add? a := by
  rcases toInt_of_toInt64? ha with ⟨m, rfl, -⟩ | rfl <;>
    rcases toInt_of_toInt64? hb with ⟨n, rfl, -⟩ | rfl
  · simp [add?, Int64.add_comm]
  · rfl
  · rfl
  · simp [add?, addInt64?, Int.add_comm]

theorem isSome_add?_ints : (a.add? b).isSome ↔ FitsInt64 (k.toInt + l.toInt) := by
  constructor
  · intro h
    obtain ⟨out, hout⟩ := Option.isSome_iff_exists.1 h
    obtain ⟨n, -, hn⟩ := add?_ints_eq_some ha hb hout
    rw [← hn]
    exact ⟨n.le_toInt, n.toInt_lt⟩
  · intro h
    obtain ⟨out, hout, -⟩ := add?_ints ha hb h
    simp [hout]

/-- Integers are aligned as they stand. -/
theorem sumFits_ints : a.SumFits b ↔ FitsInt64 (k.toInt + l.toInt) := by
  have := k.le_toInt
  have := k.toInt_lt
  have := l.le_toInt
  have := l.toInt_lt
  have haligned : a.Aligned b := by
    simp only [Aligned, digits?_of_toInt64? ha, digits?_of_toInt64? hb]
    simp [Int128.Fits]
    omega
  simp [SumFits, haligned, ha, hb, digits?_of_toInt64? ha, digits?_of_toInt64? hb]

end Ints

/-! ## A decimal and an integer -/

section Mixed

variable {e : Decimal} {k : Int64} (h : b.toInt64? = some k)
include h

theorem add?_mixed_comm : (decimal e).add? b = b.add? (decimal e) := by
  rw [add?_decimal_int h, add?_int_decimal h]

theorem sumFits_mixed : (decimal e).SumFits b ↔
    Int128.Fits (k.toInt * tenTo e.scale.toNat) ∧
      Int128.Fits (e.mantissa.toInt + k.toInt * tenTo e.scale.toNat) := by
  have hmantissa : Int128.Fits e.mantissa.toInt := ⟨e.mantissa.lower, e.mantissa.upper⟩
  have hdigits : (decimal e).digits? = some (e.mantissa.toInt, e.scale.toNat) := rfl
  simp [SumFits, Aligned, digits?_of_toInt64? h, hdigits, toInt64?, hmantissa]

/-- The power of ten has to fit by itself, which only matters to zero. -/
theorem isSome_add?_mixed : ((decimal e).add? b).isSome ↔
    Int128.Fits (tenTo e.scale.toNat) ∧ (decimal e).SumFits b := by
  rw [add?_decimal_int h, Option.isSome_map, Decimal.isSome_addInt?, sumFits_mixed h]

/-- An integer at the scale of a decimal fits only if the power of ten does, or it is zero. -/
theorem isSome_add?_mixed_iff (hzero : k = 0 → e.scale.toNat < 39) :
    ((decimal e).add? b).isSome ↔ (decimal e).SumFits b := by
  rw [isSome_add?_mixed h, and_iff_right_iff_imp]
  intro hfits
  rw [sumFits_mixed h] at hfits
  by_cases hk : k = 0
  · exact Int128.fits_tenTo_iff.2 (hzero hk)
  · refine Int128.fits_of_mul_tenTo hfits.1 fun hn => hk ?_
    exact Int64.toInt_inj.1 hn

/-- Zero is refused at the scales from 39 on, where the decimal itself would be the sum. -/
theorem add?_zero_refused (hk : k = 0) (hscale : 39 ≤ e.scale.toNat) :
    (decimal e).SumFits b ∧ (decimal e).add? b = none := by
  constructor
  · rw [sumFits_mixed h, hk]
    have hmantissa : Int128.Fits e.mantissa.toInt := ⟨e.mantissa.lower, e.mantissa.upper⟩
    simpa using ⟨by decide, hmantissa⟩
  · have hpower : ¬ Int128.Fits (tenTo e.scale.toNat) := by
      rw [Int128.fits_tenTo_iff]
      omega
    have hnone : ¬ ((decimal e).add? b).isSome := by
      rw [isSome_add?_mixed h]
      exact fun hsum => hpower hsum.1
    simpa using hnone

end Mixed

/-! ## Two decimals -/

section Decimals

variable {d e : Decimal}

theorem add?_decimals_comm : (decimal d).add? (decimal e) = (decimal e).add? (decimal d) := by
  simp only [add?, Decimal.add?_comm]

/-- Two decimals are added by their low bits at the larger scale, always. -/
theorem lowBitsSum_decimals :
    (decimal d).LowBitsSum (decimal e) ((decimal d).add? (decimal e)) := by
  intro p hp q hq
  cases hp
  cases hq
  have hsum := congrArg (Option.map some) (Decimal.map_digits_add? d e)
  simpa [add?, Option.map_map, Function.comp_def, digits?, Decimal.scaleUp] using hsum

theorem isSome_add?_decimals (h : (decimal d).Aligned (decimal e)) :
    ((decimal d).add? (decimal e)).isSome ↔ (decimal d).SumFits (decimal e) := by
  obtain ⟨hfits, hfits'⟩ := h _ rfl _ rfl
  obtain ⟨hleft, hright, -⟩ := Decimal.align_eq hfits hfits'
  have hsum := Int128.isSome_ofInt? (n := (Decimal.align d e).1.toInt +
    (Decimal.align d e).2.1.toInt)
  rw [hleft, hright] at hsum
  simp [SumFits, h, add?, Decimal.add?, toInt64?, digits?, hleft, hright, hsum]

end Decimals

/-! ## Sums of any two -/

theorem Addend.number_or_null (h : a.Addend) :
    a = null ∨ (∃ e, a = decimal e) ∨ ∃ k, a.toInt64? = some k := by
  rcases h with h | h
  · exact .inl h
  · obtain ⟨⟨m, s⟩, hdigits⟩ := Option.isSome_iff_exists.1 h
    rcases eq_decimal_or_int hdigits with ⟨e, he, -⟩ | ⟨k, hk, -⟩
    · exact .inr (.inl ⟨e, he⟩)
    · exact .inr (.inr ⟨k, hk⟩)

theorem add?_comm (ha : a.Addend) (hb : b.Addend) : a.add? b = b.add? a := by
  rcases ha.number_or_null with rfl | ⟨d, rfl⟩ | ⟨k, hk⟩
  · rw [add?_null]
    rfl
  · rcases hb.number_or_null with rfl | ⟨e, rfl⟩ | ⟨l, hl⟩
    · rfl
    · exact add?_decimals_comm
    · exact add?_mixed_comm hl
  · rcases hb.number_or_null with rfl | ⟨e, rfl⟩ | ⟨l, hl⟩
    · rw [add?_null]
      rfl
    · exact (add?_mixed_comm hk).symm
    · exact add?_ints_comm hk hl

/-- Numbers have a sum exactly where they and it fit, other than the two kinds. -/
theorem isSome_add?_iff (ha : a.Addend) (hb : b.Addend) (hna : a ≠ null) (hnb : b ≠ null)
    (hwraps : ¬ a.Wraps b) (hzero : ¬ a.RefusesZero b) : (a.add? b).isSome ↔ a.SumFits b := by
  rcases ha.number_or_null with rfl | ⟨d, rfl⟩ | ⟨k, hk⟩
  · contradiction
  · rcases hb.number_or_null with rfl | ⟨e, rfl⟩ | ⟨l, hl⟩
    · contradiction
    · refine isSome_add?_decimals ?_
      by_contra haligned
      exact hwraps ⟨rfl, rfl, haligned⟩
    · refine isSome_add?_mixed_iff hl fun hl0 => ?_
      by_contra hscale
      exact hzero ⟨d, by omega, .inr ⟨rfl, by rw [hl, hl0]⟩⟩
  · rcases hb.number_or_null with rfl | ⟨e, rfl⟩ | ⟨l, hl⟩
    · contradiction
    · have hsum : ((decimal e).add? a).isSome ↔ (decimal e).SumFits a := by
        refine isSome_add?_mixed_iff hk fun hk0 => ?_
        by_contra hscale
        exact hzero ⟨e, by omega, .inl ⟨by rw [hk, hk0], rfl⟩⟩
      rw [← add?_mixed_comm hk, hsum]
      exact ⟨SumFits.symm, SumFits.symm⟩
    · rw [isSome_add?_ints hk hl, sumFits_ints hk hl]

theorem Addend.exists_number (h : a.Addend) (hnull : a ≠ null) : ∃ x, a.number? = some x := by
  obtain ⟨⟨m, s⟩, hdigits⟩ := Option.isSome_iff_exists.1 (h.resolve_left hnull)
  exact ⟨_, number?_eq hdigits⟩

/-- Decimals that do not stay in 128 bits are added by what the low bits stand for. -/
theorem lowBitsSum_of_wraps (ha : a.Addend) (hb : b.Addend) (h : a.Wraps b) :
    a.LowBitsSum b (a.add? b) := by
  obtain ⟨hna, hnb, -⟩ := h
  rcases ha.number_or_null with rfl | ⟨d, rfl⟩ | ⟨k, hk⟩
  · exact fun p hp => nomatch hp
  · rcases hb.number_or_null with rfl | ⟨e, rfl⟩ | ⟨l, hl⟩
    · exact fun p hp q hq => nomatch hq
    · exact lowBitsSum_decimals
    · simp [hl] at hnb
  · simp [hk] at hna

/-- Zero is refused on either side. -/
theorem sumFits_of_refusesZero (hb : b.Addend) (h : a.RefusesZero b) :
    a.SumFits b ∧ a.add? b = none := by
  obtain ⟨e, hscale, ⟨hzero, rfl⟩ | ⟨rfl, hzero⟩⟩ := h
  · obtain ⟨hfits, hnone⟩ := add?_zero_refused hzero rfl hscale
    exact ⟨hfits.symm, by rw [← add?_mixed_comm hzero, hnone]⟩
  · exact add?_zero_refused hzero rfl hscale

/-- Addition does not depend on the order, and NULL changes nothing.  Two numbers have their exact
sum, or none where it or one of them does not fit at its scale; only decimals that leave 128 bits at
the larger scale are added by their low bits, and zero is refused at the scales from 39 on, where
the sum would fit. -/
theorem sum_exact_or_refused (ha : a.Addend) (hb : b.Addend) :
    a.add? b = b.add? a ∧
      (a = null → a.add? b = some b) ∧ (b = null → a.add? b = some a) ∧
      (a ≠ null → b ≠ null →
        (¬ a.Wraps b → ¬ a.RefusesZero b → a.ExactSum b (a.add? b)) ∧
        (a.Wraps b → ¬ a.SumFits b ∧ a.LowBitsSum b (a.add? b)) ∧
        (a.RefusesZero b → a.SumFits b ∧ a.add? b = none)) := by
  have hleft : a = null → a.add? b = some b := by
    rintro rfl
    rfl
  have hright : b = null → a.add? b = some a := by
    rintro rfl
    exact add?_null a
  refine ⟨add?_comm ha hb, hleft, hright, fun hna hnb => ⟨?_, ?_, ?_⟩⟩
  · intro hwraps hzero
    obtain ⟨x, hx⟩ := ha.exists_number hna
    obtain ⟨y, hy⟩ := hb.exists_number hnb
    exact exactSum_of_isSome hx hy (isSome_add?_iff ha hb hna hnb hwraps hzero)
  · intro hwraps
    exact ⟨fun hfits => hwraps.2.2 hfits.1, lowBitsSum_of_wraps ha hb hwraps⟩
  · exact sumFits_of_refusesZero hb

/-- Twelve and three hundredths have a sum at two places. -/
theorem sum_exact_twelve :
    (int32 12).ExactSum (decimal ⟨Int128.wrap 3, 2⟩) (some (decimal ⟨Int128.wrap 1203, 2⟩)) := by
  have ha : (int32 12).Addend := .inr rfl
  have hb : (decimal ⟨Int128.wrap 3, 2⟩).Addend := .inr rfl
  have hwraps : ¬ (int32 12).Wraps (decimal ⟨Int128.wrap 3, 2⟩) := by decide
  have hzero : ¬ (int32 12).RefusesZero (decimal ⟨Int128.wrap 3, 2⟩) := by
    rintro ⟨e, -, ⟨h, -⟩ | ⟨h, -⟩⟩ <;> cases h
  obtain ⟨-, -, -, h⟩ := sum_exact_or_refused ha hb
  have hsum : (int32 12).add? (decimal ⟨Int128.wrap 3, 2⟩) =
      some (decimal ⟨Int128.wrap 1203, 2⟩) := by decide
  rw [← hsum]
  exact (h (by decide) (by decide)).1 hwraps hzero

/-- Zero and a decimal with 40 places have no sum, although it would be the decimal itself; and the
largest mantissa, brought to one place, leaves `-9` of `170141183460469231731687303715884105727 +
0.1`. -/
theorem sum_neither_exact_nor_refused :
    ((int64 0).add? (decimal ⟨Int128.wrap 5, 40⟩) = none ∧
        (int64 0).SumFits (decimal ⟨Int128.wrap 5, 40⟩)) ∧
      (decimal ⟨Int128.wrap (2 ^ 127 - 1), 0⟩).add? (decimal ⟨Int128.wrap 1, 1⟩) =
          some (decimal ⟨Int128.wrap (-9), 1⟩) ∧
        ¬ (decimal ⟨Int128.wrap (2 ^ 127 - 1), 0⟩).SumFits (decimal ⟨Int128.wrap 1, 1⟩) := by
  decide

end Datum
end Sharding
