import Sharding.Proofs.Datum.Number

/-!
# Trimmed decimals

Trimming takes zeros off the end of a decimal and keeps the number it stands for, `Decimal.value`.
A decimal without such zeros (`Decimal.Trimmed`) is the only one of its number: two of them at
different scales would differ by a power of ten in their mantissas.  So decimals are trimmed to one
form exactly if they stand for one number (`Decimal.trim_eq_iff`), whatever their scales and signs.
-/

namespace Sharding

namespace Decimal

/-- The number that a decimal stands for. -/
def value (d : Decimal) : ℚ :=
  (d.mantissa.toInt : ℚ) / 10 ^ d.scale.toNat

/-- A decimal with no zero to take off. -/
def Trimmed (d : Decimal) : Prop :=
  d.scale = 0 ∨ d.mantissa.toInt % 10 ≠ 0

variable {d e : Decimal}

/-! ## What trimming keeps -/

/-- The zeros that are taken off a mantissa are put back by a power of ten. -/
theorem exists_stripped (m : Int128) (s : Nat) :
    ∃ k, s = (stripZeros m s).2 + k ∧ m.toInt = (stripZeros m s).1.toInt * tenTo k := by
  induction s generalizing m with
  | zero =>
    exact ⟨0, rfl, (Int.mul_one _).symm⟩
  | succ s ih =>
    rw [stripZeros]
    split
    · rename_i hzero
      obtain ⟨k, hs, hm⟩ := ih m.tenth
      refine ⟨k + 1, by omega, ?_⟩
      have htenth : m.toInt = m.tenth.toInt * 10 := by
        show m.toInt = m.toInt / 10 * 10
        omega
      rw [tenTo_succ, Nat.cast_mul, ← Int.mul_assoc, ← hm]
      exact htenth
    · exact ⟨0, rfl, (Int.mul_one _).symm⟩

/-- Zeros are taken off until none is left, or no scale. -/
theorem stripped_end (m : Int128) (s : Nat) :
    (stripZeros m s).2 = 0 ∨ (stripZeros m s).1.toInt % 10 ≠ 0 := by
  induction s generalizing m with
  | zero => exact .inl rfl
  | succ s ih =>
    rw [stripZeros]
    split
    · exact ih m.tenth
    · rename_i hnonzero
      exact .inr hnonzero

theorem toNat_scale_trim (d : Decimal) :
    d.trim.scale.toNat = (stripZeros d.mantissa d.scale.toNat).2 := by
  obtain ⟨k, hs, -⟩ := exists_stripped d.mantissa d.scale.toNat
  have hbyte : d.scale.toNat < 256 := d.scale.toNat_lt
  exact UInt8.toNat_ofNat_of_lt' (show (stripZeros d.mantissa d.scale.toNat).2 < 256 by omega)

/-- Trimming keeps the number. -/
theorem value_trim (d : Decimal) : d.trim.value = d.value := by
  obtain ⟨k, hs, hm⟩ := exists_stripped d.mantissa d.scale.toNat
  have hvalue := shift_mantissa (stripZeros d.mantissa d.scale.toNat).1.toInt
    (stripZeros d.mantissa d.scale.toNat).2 k
  rw [← hs, ← hm] at hvalue
  rw [value, toNat_scale_trim]
  exact hvalue

theorem trimmed_trim (d : Decimal) : d.trim.Trimmed := by
  rcases stripped_end d.mantissa d.scale.toNat with hscale | hmantissa
  · left
    apply UInt8.toNat_inj.1
    rw [toNat_scale_trim, hscale]
    rfl
  · exact .inr hmantissa

/-! ## One form for each number -/

/-- Decimals of one number have one mantissa at the larger of their scales. -/
theorem mantissas_of_value (h : d.value = e.value) :
    d.mantissa.toInt * tenTo (e.scale.toNat - d.scale.toNat) =
      e.mantissa.toInt * tenTo (d.scale.toNat - e.scale.toNat) := by
  apply compare_eq_iff_eq.1
  rw [← compare_mantissas]
  exact compare_eq_iff_eq.2 h

/-- A mantissa that was brought up to a larger scale ends in a zero. -/
theorem Trimmed.scale_le (he : e.Trimmed) (h : d.value = e.value) :
    e.scale.toNat ≤ d.scale.toNat := by
  by_contra hlt
  have hmantissas := mantissas_of_value h
  obtain ⟨k, hk⟩ : ∃ k, e.scale.toNat - d.scale.toNat = k + 1 :=
    ⟨e.scale.toNat - d.scale.toNat - 1, by omega⟩
  rw [mul_tenTo_of_le e.mantissa.toInt (by omega), hk, tenTo_succ, Nat.cast_mul,
    ← Int.mul_assoc] at hmantissas
  rcases he with hscale | hmantissa
  · rw [hscale] at hlt
    exact hlt (Nat.zero_le _)
  · apply hmantissa
    rw [← hmantissas]
    exact Int.mul_emod_left _ _

/-- A trimmed decimal is the only one of its number. -/
theorem Trimmed.eq_of_value (hd : d.Trimmed) (he : e.Trimmed) (h : d.value = e.value) :
    d = e := by
  have hscale : d.scale.toNat = e.scale.toNat :=
    Nat.le_antisymm (hd.scale_le h.symm) (he.scale_le h)
  have hmantissas := mantissas_of_value h
  rw [hscale, mul_tenTo_of_le _ (Nat.le_refl _), mul_tenTo_of_le _ (Nat.le_refl _)] at hmantissas
  cases d
  cases e
  exact congr (congrArg mk (Int128.ext hmantissas)) (UInt8.toNat_inj.1 hscale)

/-- Decimals are trimmed to one form exactly if they stand for one number. -/
theorem trim_eq_iff : d.trim = e.trim ↔ d.value = e.value := by
  constructor
  · intro h
    rw [← value_trim d, h, value_trim]
  · intro h
    apply (trimmed_trim d).eq_of_value (trimmed_trim e)
    rw [value_trim, value_trim, h]

end Decimal

end Sharding
