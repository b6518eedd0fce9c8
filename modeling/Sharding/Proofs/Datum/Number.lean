import Mathlib.Algebra.Order.Field.Rat
import Mathlib.Data.Int.CharZero
import Mathlib.Data.Multiset.Lattice
import Mathlib.Order.WithBot
import Mathlib.Tactic.FieldSimp
import Mathlib.Tactic.Positivity
import Sharding.Datum.Sum
import Sharding.Proofs.Datum.Order

/-!
# The numbers of integers and decimals

An integer or a decimal stands for a rational number, `Datum.number?`.  Two of them are compared and
added at the larger of their scales, in 128 bits.  `Datum.Aligned` says that both are still in these
bits there; then they are compared as their numbers (`compare?_numbers`), and the sum stands for the
sum of the numbers (`add?_digits`).
-/

namespace Sharding

/-! ## Mantissas and scales -/

theorem mul_tenTo_of_le (m : Int) {s s' : Nat} (h : s' ≤ s) : m * tenTo (s' - s) = m := by
  rw [Nat.sub_eq_zero_of_le h, tenTo_zero]
  exact Int.mul_one m

/-- A mantissa with the point moved by some more places. -/
theorem shift_mantissa (m : Int) (s k : Nat) :
    (m : ℚ) / 10 ^ s = ((m * tenTo k : Int) : ℚ) / 10 ^ (s + k) := by
  have hten : ((tenTo k : Nat) : ℚ) = 10 ^ k := Nat.cast_pow 10 k
  push_cast
  rw [hten, pow_add]
  field_simp

/-- Two mantissas at the larger of their scales. -/
theorem shift_mantissas (m m' : Int) (s s' : Nat) :
    (m : ℚ) / 10 ^ s = ((m * tenTo (s' - s) : Int) : ℚ) / 10 ^ max s s' ∧
      (m' : ℚ) / 10 ^ s' = ((m' * tenTo (s - s') : Int) : ℚ) / 10 ^ max s s' := by
  have hleft := shift_mantissa m s (s' - s)
  have hright := shift_mantissa m' s' (s - s')
  rw [show s + (s' - s) = max s s' by omega] at hleft
  rw [show s' + (s - s') = max s s' by omega] at hright
  exact ⟨hleft, hright⟩

/-- Numbers are compared by their mantissas at one scale. -/
theorem compare_mantissas (m m' : Int) (s s' : Nat) :
    compare ((m : ℚ) / 10 ^ s) ((m' : ℚ) / 10 ^ s') =
      compare (m * tenTo (s' - s)) (m' * tenTo (s - s')) := by
  obtain ⟨hleft, hright⟩ := shift_mantissas m m' s s'
  have hpos : (0 : ℚ) < 10 ^ max s s' := by positivity
  rw [hleft, hright]
  rcases lt_trichotomy (m * tenTo (s' - s)) (m' * tenTo (s - s')) with h | h | h
  · rw [compare_lt_iff_lt.2 h, compare_lt_iff_lt]
    exact div_lt_div_of_pos_right (by exact_mod_cast h) hpos
  · rw [h, compare_eq_iff_eq.2 rfl, compare_eq_iff_eq.2 rfl]
  · rw [compare_gt_iff_gt.2 h, compare_gt_iff_gt]
    exact div_lt_div_of_pos_right (by exact_mod_cast h) hpos

namespace Decimal

theorem toInt_scaleUp {m : Int128} {k : Nat} (h : Int128.Fits (m.toInt * tenTo k)) :
    (scaleUp m k).toInt = m.toInt * tenTo k :=
  Int128.wrap_of_fits h

/-- Two decimals at the larger of their scales, when they stay in 128 bits there. -/
theorem align_eq {a b : Decimal}
    (ha : Int128.Fits (a.mantissa.toInt * tenTo (b.scale.toNat - a.scale.toNat)))
    (hb : Int128.Fits (b.mantissa.toInt * tenTo (a.scale.toNat - b.scale.toNat))) :
    (align a b).1.toInt = a.mantissa.toInt * tenTo (b.scale.toNat - a.scale.toNat) ∧
      (align a b).2.1.toInt = b.mantissa.toInt * tenTo (a.scale.toNat - b.scale.toNat) ∧
      (align a b).2.2.toNat = max a.scale.toNat b.scale.toNat := by
  unfold align
  rcases Nat.lt_trichotomy a.scale.toNat b.scale.toNat with h | h | h
  · have hle := Nat.le_of_lt h
    rw [Nat.compare_eq_lt.2 h, mul_tenTo_of_le _ hle]
    exact ⟨toInt_scaleUp ha, rfl, (Nat.max_eq_right hle).symm⟩
  · rw [Nat.compare_eq_eq.2 h, mul_tenTo_of_le _ (Nat.le_of_eq h),
      mul_tenTo_of_le _ (Nat.le_of_eq h.symm)]
    exact ⟨rfl, rfl, (Nat.max_eq_left (Nat.le_of_eq h.symm)).symm⟩
  · have hle := Nat.le_of_lt h
    rw [Nat.compare_eq_gt.2 h, mul_tenTo_of_le _ hle]
    exact ⟨rfl, toInt_scaleUp hb, (Nat.max_eq_left hle).symm⟩

/-- The sum of two decimals, both brought to the larger scale. -/
theorem add?_eq_some {a b out : Decimal}
    (ha : Int128.Fits (a.mantissa.toInt * tenTo (b.scale.toNat - a.scale.toNat)))
    (hb : Int128.Fits (b.mantissa.toInt * tenTo (a.scale.toNat - b.scale.toNat)))
    (h : a.add? b = some out) :
    out.mantissa.toInt = a.mantissa.toInt * tenTo (b.scale.toNat - a.scale.toNat) +
        b.mantissa.toInt * tenTo (a.scale.toNat - b.scale.toNat) ∧
      out.scale.toNat = max a.scale.toNat b.scale.toNat := by
  obtain ⟨hleft, hright, hscale⟩ := align_eq ha hb
  have h : (Int128.ofInt? ((align a b).1.toInt + (align a b).2.1.toInt)).map
      (fun m => Decimal.mk m (align a b).2.2) = some out := h
  obtain ⟨sum, hsum, rfl⟩ := Option.map_eq_some_iff.1 h
  refine ⟨?_, hscale⟩
  rw [Int128.ofInt?_eq_some.1 hsum, hleft, hright]

/-- The sum of a decimal and an integer, at the scale of the decimal. -/
theorem addInt?_eq_some {d out : Decimal} {n : Int} (h : d.addInt? n = some out) :
    out.mantissa.toInt = d.mantissa.toInt + n * tenTo d.scale.toNat ∧ out.scale = d.scale := by
  simp only [addInt?, Option.bind_eq_bind, Option.bind_eq_some_iff] at h
  obtain ⟨power, hpower, scaled, hscaled, sum, hsum, h⟩ := h
  cases h
  refine ⟨?_, rfl⟩
  rw [Int128.ofInt?_eq_some.1 hsum, Int128.ofInt?_eq_some.1 hscaled,
    Int128.ofInt?_eq_some.1 hpower]

end Decimal

namespace Datum

/-- An integer or a decimal as a mantissa and a number of decimal places. -/
def digits? : Datum → Option (Int × Nat)
  | int32 n => some (n.toInt, 0)
  | int64 n => some (n.toInt, 0)
  | decimal d => some (d.mantissa.toInt, d.scale.toNat)
  | _ => none

/-- The number that an integer or a decimal stands for. -/
def number? (d : Datum) : Option ℚ :=
  d.digits?.map fun p => (p.1 : ℚ) / 10 ^ p.2

/-- The scale of a decimal. -/
def scale? : Datum → WithBot Nat
  | decimal d => (d.scale.toNat : WithBot Nat)
  | _ => ⊥

/-- Both datums stay in 128 bits at the larger of their scales. -/
def Aligned (a b : Datum) : Prop :=
  ∀ p ∈ a.digits?, ∀ q ∈ b.digits?,
    Int128.Fits (p.1 * tenTo (q.2 - p.2)) ∧ Int128.Fits (q.1 * tenTo (p.2 - q.2))

instance (a b : Datum) : Decidable (a.Aligned b) :=
  inferInstanceAs (Decidable (∀ p ∈ a.digits?, ∀ q ∈ b.digits?,
    Int128.Fits (p.1 * tenTo (q.2 - p.2)) ∧ Int128.Fits (q.1 * tenTo (p.2 - q.2))))

theorem number?_eq {d : Datum} {m : Int} {s : Nat} (h : d.digits? = some (m, s)) :
    d.number? = some ((m : ℚ) / 10 ^ s) := by
  rw [number?, h]
  rfl

theorem exists_digits {d : Datum} {x : ℚ} (h : d.number? = some x) :
    ∃ m s, d.digits? = some (m, s) ∧ (m : ℚ) / 10 ^ s = x := by
  obtain ⟨⟨m, s⟩, hdigits, hx⟩ := Option.map_eq_some_iff.1 h
  exact ⟨m, s, hdigits, hx⟩

theorem Aligned.symm {a b : Datum} (h : a.Aligned b) : b.Aligned a :=
  fun q hq p hp => (h p hp q hq).symm

theorem isNull_of_number? {d : Datum} {x : ℚ} (h : d.number? = some x) : d.isNull = false := by
  cases d with
  | null => cases h
  | _ => rfl

/-- A number is a decimal or an integer. -/
theorem eq_decimal_or_int {d : Datum} {m : Int} {s : Nat} (h : d.digits? = some (m, s)) :
    (∃ e : Decimal, d = decimal e ∧ e.mantissa.toInt = m ∧ e.scale.toNat = s) ∨
      ∃ k, d.toInt64? = some k ∧ k.toInt = m ∧ s = 0 := by
  cases d with
  | int32 n =>
    cases h
    exact .inr ⟨_, rfl, Int32.toInt_toInt64 n, rfl⟩
  | int64 n =>
    cases h
    exact .inr ⟨n, rfl, rfl, rfl⟩
  | decimal e =>
    cases h
    exact .inl ⟨e, rfl, rfl, rfl⟩
  | _ => cases h

theorem compare?_decimal_int {e : Decimal} {d : Datum} {k : Int64} (h : d.toInt64? = some k) :
    (decimal e).compare? d = some (e.compareInt k.toInt) := by
  rcases toInt_of_toInt64? h with ⟨n, rfl, hn⟩ | rfl
  · show some (e.compareInt n.toInt64.toInt) = _
    rw [Int32.toInt_toInt64, hn]
  · rfl

/-- A decimal and an integer are compared as numbers, unless the integer leaves 128 bits. -/
theorem compareInt_eq {e : Decimal} {n : Int} (h : Int128.Fits (n * tenTo e.scale.toNat)) :
    e.compareInt n = compare e.mantissa.toInt (n * tenTo e.scale.toNat) := by
  rw [Decimal.compareInt, Int128.wrap_of_fits h]

/-- Aligned numbers are compared as numbers. -/
theorem compare?_numbers {a b : Datum} {x y : ℚ} (ha : a.number? = some x)
    (hb : b.number? = some y) (haligned : a.Aligned b) : a.compare? b = some (compare x y) := by
  obtain ⟨m, s, hda, rfl⟩ := exists_digits ha
  obtain ⟨m', s', hdb, rfl⟩ := exists_digits hb
  obtain ⟨hfits, hfits'⟩ := haligned (m, s) hda (m', s') hdb
  rw [compare_mantissas]
  rcases eq_decimal_or_int hda with ⟨d, rfl, rfl, rfl⟩ | ⟨k, hk, rfl, rfl⟩ <;>
    rcases eq_decimal_or_int hdb with ⟨e, rfl, rfl, rfl⟩ | ⟨l, hl, rfl, rfl⟩
  · obtain ⟨hleft, hright, -⟩ := Decimal.align_eq hfits hfits'
    show some (compare (Decimal.align d e).1.toInt (Decimal.align d e).2.1.toInt) = _
    rw [hleft, hright]
  · rw [compare?_decimal_int hl, compareInt_eq hfits', mul_tenTo_of_le _ (Nat.zero_le _)]
    rfl
  · rw [compare?_swap, compare?_decimal_int hk, compareInt_eq hfits,
      mul_tenTo_of_le _ (Nat.zero_le _)]
    exact congrArg some Std.OrientedOrd.eq_swap.symm
  · rw [compare?_ints hk hl, mul_tenTo_of_le _ (Nat.le_refl _), mul_tenTo_of_le _ (Nat.le_refl _)]

/-! ## Sums -/

theorem addInt64?_eq_some {a b : Int} {k : Int64} (h : addInt64? a b = some k) :
    k.toInt = a + b := by
  unfold addInt64? at h
  split at h
  next hfits =>
    cases h
    exact Int64.toInt_ofInt_of_le hfits.1 hfits.2
  next => cases h

/-- The sum of two integers is an integer of 64 bits. -/
theorem add?_ints_eq_some {a b out : Datum} {k l : Int64} (ha : a.toInt64? = some k)
    (hb : b.toInt64? = some l) (h : a.add? b = some out) :
    ∃ n, out = int64 n ∧ n.toInt = k.toInt + l.toInt := by
  rcases toInt_of_toInt64? ha with ⟨x, rfl, hx⟩ | rfl <;>
    rcases toInt_of_toInt64? hb with ⟨y, rfl, hy⟩ | rfl
  · cases h
    refine ⟨_, rfl, ?_⟩
    have hx' := x.le_toInt
    have hx'' := x.toInt_lt
    have hy' := y.le_toInt
    have hy'' := y.toInt_lt
    rw [Int64.toInt_add, Int32.toInt_toInt64, Int32.toInt_toInt64, hx, hy]
    exact Int.bmod_eq_of_le (by omega) (by omega)
  · obtain ⟨n, hn, rfl⟩ := Option.map_eq_some_iff.1 h
    refine ⟨n, rfl, ?_⟩
    rw [addInt64?_eq_some hn, hx, Int.add_comm]
  · obtain ⟨n, hn, rfl⟩ := Option.map_eq_some_iff.1 h
    refine ⟨n, rfl, ?_⟩
    rw [addInt64?_eq_some hn, hy]
  · obtain ⟨n, hn, rfl⟩ := Option.map_eq_some_iff.1 h
    exact ⟨n, rfl, addInt64?_eq_some hn⟩

theorem add?_decimal_int {e : Decimal} {d : Datum} {k : Int64} (h : d.toInt64? = some k) :
    (decimal e).add? d = (e.addInt? k.toInt).map decimal := by
  rw [add?, h, Option.bind_some]
  · rintro rfl
    cases h
  · rintro _ rfl
    cases h

theorem add?_int_decimal {e : Decimal} {d : Datum} {k : Int64} (h : d.toInt64? = some k) :
    d.add? (decimal e) = (e.addInt? k.toInt).map decimal := by
  rw [add?, h, Option.bind_some]
  · rintro rfl
    cases h
  · rintro _ rfl
    cases h

theorem scale?_of_toInt64? {d : Datum} {k : Int64} (h : d.toInt64? = some k) : d.scale? = ⊥ := by
  rcases toInt_of_toInt64? h with ⟨n, rfl, -⟩ | rfl <;> rfl

/-- The sum of aligned numbers stands at the larger scale. -/
theorem add?_digits {a b out : Datum} {m m' : Int} {s s' : Nat} (ha : a.digits? = some (m, s))
    (hb : b.digits? = some (m', s')) (haligned : a.Aligned b) (h : a.add? b = some out) :
    out.digits? = some (m * tenTo (s' - s) + m' * tenTo (s - s'), max s s') ∧
      out.scale? = a.scale? ⊔ b.scale? ∧ ∀ n, out ≠ int32 n := by
  obtain ⟨hfits, hfits'⟩ := haligned (m, s) ha (m', s') hb
  rcases eq_decimal_or_int ha with ⟨d, rfl, rfl, rfl⟩ | ⟨k, hk, rfl, rfl⟩ <;>
    rcases eq_decimal_or_int hb with ⟨e, rfl, rfl, rfl⟩ | ⟨l, hl, rfl, rfl⟩
  · obtain ⟨sum, hsum, rfl⟩ := Option.map_eq_some_iff.1 h
    obtain ⟨hmantissa, hscale⟩ := Decimal.add?_eq_some hfits hfits' hsum
    refine ⟨?_, ?_, fun n hn => by cases hn⟩
    · rw [digits?, hmantissa, hscale]
    · rw [scale?, scale?, scale?, hscale]
      rfl
  · rw [add?_decimal_int hl] at h
    obtain ⟨sum, hsum, rfl⟩ := Option.map_eq_some_iff.1 h
    obtain ⟨hmantissa, hscale⟩ := Decimal.addInt?_eq_some hsum
    refine ⟨?_, ?_, fun n hn => by cases hn⟩
    · rw [digits?, hmantissa, hscale, mul_tenTo_of_le _ (Nat.zero_le _), Nat.max_zero]
      rfl
    · rw [scale?_of_toInt64? hl, sup_bot_eq, scale?, scale?, hscale]
  · rw [add?_int_decimal hk] at h
    obtain ⟨sum, hsum, rfl⟩ := Option.map_eq_some_iff.1 h
    obtain ⟨hmantissa, hscale⟩ := Decimal.addInt?_eq_some hsum
    refine ⟨?_, ?_, fun n hn => by cases hn⟩
    · rw [digits?, hmantissa, hscale, mul_tenTo_of_le _ (Nat.zero_le _), Nat.zero_max,
        Int.add_comm]
      rfl
    · rw [scale?_of_toInt64? hk, bot_sup_eq, scale?, scale?, hscale]
  · obtain ⟨n, rfl, hn⟩ := add?_ints_eq_some hk hl h
    refine ⟨?_, ?_, fun n hn => by cases hn⟩
    · rw [digits?, hn, mul_tenTo_of_le _ (Nat.le_refl _), mul_tenTo_of_le _ (Nat.le_refl _)]
      rfl
    · rw [scale?_of_toInt64? hk, scale?_of_toInt64? hl]
      rfl

/-- The sum of aligned numbers stands for the sum of the numbers. -/
theorem add?_number {a b out : Datum} {x y : ℚ} (ha : a.number? = some x)
    (hb : b.number? = some y) (haligned : a.Aligned b) (h : a.add? b = some out) :
    out.number? = some (x + y) ∧ out.scale? = a.scale? ⊔ b.scale? ∧ ∀ n, out ≠ int32 n := by
  obtain ⟨m, s, hda, rfl⟩ := exists_digits ha
  obtain ⟨m', s', hdb, rfl⟩ := exists_digits hb
  obtain ⟨hdigits, hscale, hwide⟩ := add?_digits hda hdb haligned h
  obtain ⟨hleft, hright⟩ := shift_mantissas m m' s s'
  refine ⟨?_, hscale, hwide⟩
  rw [number?_eq hdigits, hleft, hright, ← add_div, ← Int.cast_add]

theorem add?_null (a : Datum) : a.add? null = some a := by
  cases a <;> rfl

/-! ## Numbers and their forms -/

@[simp] theorem number?_null : null.number? = none := rfl

/-- A number in one form: two integers of 64 bits, or two decimals of one scale. -/
theorem eq_of_number {a b : Datum} {x : ℚ} (ha : a.number? = some x) (hb : b.number? = some x)
    (hscale : a.scale? = b.scale?) (hwidea : ∀ n, a ≠ int32 n) (hwideb : ∀ n, b ≠ int32 n) :
    a = b := by
  obtain ⟨m, s, hda, rfl⟩ := exists_digits ha
  obtain ⟨m', s', hdb, hx⟩ := exists_digits hb
  rcases eq_decimal_or_int hda with ⟨d, rfl, rfl, rfl⟩ | ⟨k, hk, rfl, rfl⟩ <;>
    rcases eq_decimal_or_int hdb with ⟨e, rfl, rfl, rfl⟩ | ⟨l, hl, rfl, rfl⟩
  · have hplaces : d.scale.toNat = e.scale.toNat := WithBot.coe_inj.1 hscale
    rw [hplaces, div_left_inj' (by positivity), Int.cast_inj] at hx
    have hmantissa : d.mantissa = e.mantissa := Int128.ext hx.symm
    have hscale : d.scale = e.scale := UInt8.toNat_inj.1 hplaces
    cases d
    cases e
    cases hmantissa
    cases hscale
    rfl
  · rw [scale?_of_toInt64? hl] at hscale
    cases hscale
  · rw [scale?_of_toInt64? hk] at hscale
    cases hscale
  · rw [pow_zero, div_one, div_one, Int.cast_inj] at hx
    rcases toInt_of_toInt64? hk with ⟨n, rfl, -⟩ | rfl
    · exact absurd rfl (hwidea n)
    · rcases toInt_of_toInt64? hl with ⟨n, rfl, -⟩ | rfl
      · exact absurd rfl (hwideb n)
      · rw [Int64.toInt_inj.1 hx]

end Datum

end Sharding
