import Sharding.Proofs.Datum.FloatExact

/-!
# Quotients of integers as floats

An average is the quotient of two integers of 64 bits that have been made floats.  What matters
about it is that an integer other than zero becomes a finite float other than zero (`normal_ofInt`),
so the test for a count of zero is exact, and that a quotient by such a float is no NaN
(`div_ne_nan`), so averages can be put in order.

Both follow from bounds on the exponents: rounding a mantissa of `53 + k` bits raises the exponent
by no more than `k + 1`, and a float whose mantissa has 53 bits and whose exponent is neither too
large nor too small is packed as it is.
-/

namespace Sharding

open Float.Model UnpackedFloat

/-- A finite float with a mantissa of 53 bits and an exponent between two bounds. -/
def Normal (low top : Int) (u : UnpackedFloat) : Prop :=
  ∃ s m e h, u = .finite s m e h ∧ 2 ^ 52 ≤ m ∧ m < 2 ^ 53 ∧ low ≤ e ∧ e ≤ top

theorem Normal.mono {low low' top top' : Int} {u : UnpackedFloat} (h : Normal low top u)
    (hlow : low' ≤ low) (htop : top ≤ top') : Normal low' top' u := by
  obtain ⟨s, m, e, hm, rfl, hge, hlt, hfrom, hto⟩ := h
  exact ⟨s, m, e, hm, rfl, hge, hlt, hlow.trans hfrom, hto.trans htop⟩

/-! ## Rounding -/

theorem mantissa_shiftRight (em : ExtendedMantissa) (k : Nat) :
    (em >>> k).mantissa = em.mantissa / 2 ^ k := by
  induction k with
  | zero => exact (Nat.div_one _).symm
  | succ k ih =>
    calc (em >>> (k + 1)).mantissa = (em >>> k).mantissa / 2 := rfl
      _ = em.mantissa / 2 ^ (k + 1) := by rw [ih, Nat.div_div_eq_div_mul, Nat.pow_succ]

theorem mantissa_ofMantissaAndAccuracy (m : Nat) (a : Accuracy) :
    (ExtendedMantissa.ofMantissaAndAccuracy m a).mantissa = m := by
  rcases a with _ | o
  · rfl
  · cases o <;> rfl

theorem le_roundedMantissa (em : ExtendedMantissa) :
    em.mantissa ≤ em.roundedMantissa ∧ em.roundedMantissa ≤ em.mantissa + 1 := by
  unfold ExtendedMantissa.roundedMantissa
  rcases em.accuracy with _ | o
  · exact ⟨Nat.le_refl _, Nat.le_succ _⟩
  · cases o <;> simp only [Accuracy.roundToNearestEven] <;> omega

theorem le_shifted {m : Nat} (hm : 2 ^ 52 ≤ m) : 2 ^ 52 ≤ m / 2 ^ (m.log2 - 52) := by
  have hne : m ≠ 0 := by omega
  rw [Nat.le_div_iff_mul_le (Nat.two_pow_pos _), ← Nat.pow_add]
  have hlog : 52 ≤ m.log2 := (Nat.le_log2 hne).mpr hm
  rw [show 52 + (m.log2 - 52) = m.log2 by omega]
  exact Nat.log2_self_le hne

theorem shifted_lt (m : Nat) : m / 2 ^ (m.log2 - 52) < 2 ^ 53 := by
  rw [Nat.div_lt_iff_lt_mul (Nat.two_pow_pos _), ← Nat.pow_add]
  exact Nat.lt_log2_self.trans_le (Nat.pow_le_pow_right (by decide) (by omega))

theorem normal_roundWithAccuracy (s : Sign) {m k : Nat} (hm : 2 ^ 52 ≤ m) (hk : m < 2 ^ (53 + k))
    {e : Int} (he : -1074 ≤ e) (a : Accuracy) :
    Normal e (e + k + 1) (roundWithAccuracy Format.binary64 s m e a) := by
  obtain ⟨r, hr⟩ : ∃ r, r = (ExtendedMantissa.ofMantissaAndAccuracy m a >>>
      (m.log2 - 52)).roundedMantissa := ⟨_, rfl⟩
  have hbounds := le_roundedMantissa (ExtendedMantissa.ofMantissaAndAccuracy m a >>> (m.log2 - 52))
  rw [← hr, mantissa_shiftRight, mantissa_ofMantissaAndAccuracy] at hbounds
  have hfull : 2 ^ 52 ≤ r := (le_shifted hm).trans hbounds.1
  -- rounding up may have taken one bit more
  have hlog : r.log2 < 54 := by
    rw [Nat.log2_lt (by omega)]
    have := shifted_lt m
    omega
  have hwide : m.log2 < 53 + k := (Nat.log2_lt (by omega)).mpr hk
  have hshifted := le_shifted hfull
  unfold roundWithAccuracy shiftToTargetExponent shiftToExponent
  simp only [shiftAmount_eq m he, mantissa_shiftRight, mantissa_ofMantissaAndAccuracy, ← hr,
    shiftAmount_eq r (show -1074 ≤ e + (m.log2 - 52 : Nat) by omega)]
  rw [dif_neg (by omega)]
  refine ⟨s, _, _, _, rfl, hshifted, shifted_lt r, ?_, ?_⟩ <;> omega

theorem roundWithAccuracy_ne_nan (s : Sign) (m : Nat) (e : Int) (a : Accuracy) :
    roundWithAccuracy Format.binary64 s m e a ≠ .notANumber := by
  unfold roundWithAccuracy
  dsimp only
  split <;> intro h <;> cases h

/-! ## Packing -/

theorem Normal.repacked {low top : Int} {u : UnpackedFloat} (h : Normal low top u)
    (hbottom : -1074 ≤ low) (htop : top ≤ 900) : Normal low top (repacked u) := by
  obtain ⟨s, m, e, hm, rfl, hge, hlt, hlow, hhigh⟩ := h
  rw [repacked_finite s hm hge hlt (by omega) (by omega)]
  exact ⟨s, m, e, hm, rfl, hge, hlt, hlow, hhigh⟩

/-- Packing makes no NaN. -/
theorem repacked_ne_nan {u : UnpackedFloat} (h : u ≠ .notANumber) : repacked u ≠ .notANumber := by
  have hinfinity : ∀ s, UnpackedFloat.unpack Format.binary64
      (packedInfinity Format.binary64 s) ≠ .notANumber := by
    intro s
    cases s <;> intro h <;> cases h
  have hcomponents : ∀ (s : Sign) (x : BitVec 11) (m : BitVec 52), x ≠ -1#_ →
      UnpackedFloat.unpack Format.binary64 (packComponents Format.binary64 s x m) ≠
        .notANumber := by
    intro s x m hx
    rw [unpack_packComponents s x m hx]
    split
    · split <;> intro h <;> cases h
    · intro h
      cases h
  unfold repacked
  cases u with
  | notANumber => exact absurd rfl h
  | infinity s => exact hinfinity s
  | zero s => exact hcomponents s 0 0 (by decide)
  | finite s m e hm =>
    unfold UnpackedFloat.pack
    dsimp only
    split
    · exact hinfinity s
    · rename_i hsmall
      split
      · refine hcomponents s _ _ ?_
        intro heq
        have htoNat := congrArg BitVec.toNat heq
        rw [BitVec.toNat_ofNat] at htoNat
        have hnegOne : (-1#11 : BitVec 11).toNat = 2047 := rfl
        simp only [Nat.reducePow] at hsmall htoNat
        rw [hnegOne] at htoNat
        omega
      · exact hcomponents s _ _ (by decide)

/-! ## Integers as floats -/

/-- A natural number of 64 bits other than zero is a finite float other than zero. -/
theorem normal_ofNat {n : Nat} (hpos : 0 < n) (hn : n < 2 ^ 64) :
    Normal (-104) 100 (unpacked (Float.ofNat n)) := by
  by_cases hfast : n < 2 ^ 53
  · have hlog := log2_le hfast
    obtain ⟨hge, hlt⟩ := filled_bounds hpos hfast
    rw [unpacked_ofNat hpos hfast]
    exact ⟨.positive, filled n, _, filled_pos hpos, rfl, hge, hlt, by omega, by omega⟩
  · have hofNat : Float.ofNat n = .ofModel (Float.Model.ofScientific n 0) := by
      show Float.ofScientific n false 0 = _
      unfold Float.ofScientific
      rw [dif_neg (fun h => hfast h.1)]
      rfl
    have hscientific : UnpackedFloat.ofScientific Format.binary64 n 0 =
        roundWithAccuracy Format.binary64 .positive (n <<< 53 * 1) (-53) .exact := by
      have hlow : ¬ (0 : Int) < -((2 ^ Format.binary64.exponentBits : Int) + n.log2) := by
        show ¬ (0 : Int) < -((2048 : Int) + n.log2)
        omega
      unfold UnpackedFloat.ofScientific
      rw [dif_neg (Nat.ne_of_gt hpos), if_neg (by decide), if_neg hlow, if_pos (by decide)]
      rfl
    have hge : 2 ^ 52 ≤ n <<< 53 * 1 := by
      rw [Nat.mul_one, Nat.shiftLeft_eq]
      omega
    have hsmall : n <<< 53 * 1 < 2 ^ (53 + 64) := by
      rw [Nat.mul_one, Nat.shiftLeft_eq]
      omega
    have hround := normal_roundWithAccuracy .positive hge hsmall (e := -53) (by decide) .exact
    rw [← hscientific] at hround
    rw [hofNat]
    refine (hround.repacked (by decide) (by decide)).mono ?_ ?_ <;> decide

/-- An integer of 64 bits other than zero is a finite float other than zero. -/
theorem normal_ofInt {n : Int} (hne : n ≠ 0) (hn : n.natAbs < 2 ^ 64) :
    Normal (-104) 100 (unpacked (Float.ofInt n)) := by
  cases n with
  | ofNat n =>
    refine normal_ofNat ?_ hn
    exact Nat.pos_of_ne_zero fun h => hne (by rw [h]; rfl)
  | negSucc n =>
    obtain ⟨s, m, e, hm, heq, hbounds⟩ := normal_ofNat (Nat.succ_pos n) hn
    have hneg : Normal (-104) 100 ((unpacked (Float.ofNat n.succ)).neg) := by
      rw [heq]
      exact ⟨-s, m, e, hm, rfl, hbounds⟩
    exact hneg.repacked (by decide) (by decide)

/-- Only the integer zero is equal to zero as a float. -/
theorem ofInt_beq_zero {n : Int} (hn : n.natAbs < 2 ^ 64) :
    (Float.ofInt n == 0.0) = decide (n = 0) := by
  by_cases hzero : n = 0
  · subst hzero
    decide
  · rw [decide_eq_false hzero, Bool.eq_false_iff, Ne, float_beq_iff]
    obtain ⟨s, m, e, hm, heq, -⟩ := normal_ofInt hzero hn
    have hunpacked : unpacked 0.0 = .zero .positive := rfl
    rw [heq, hunpacked]
    cases s <;> intro h <;> cases h

/-- The quotient of two integers is no NaN, but for a divisor of zero. -/
theorem div_ne_nan {s n : Int} (hs : s.natAbs < 2 ^ 64) (hne : n ≠ 0) (hn : n.natAbs < 2 ^ 64) :
    unpacked (Float.ofInt s / Float.ofInt n) ≠ .notANumber := by
  refine repacked_ne_nan (u := UnpackedFloat.div Format.binary64 (unpacked (Float.ofInt s))
    (unpacked (Float.ofInt n))) ?_
  obtain ⟨t, m, e, hm, heq, -⟩ := normal_ofInt hne hn
  rw [heq]
  by_cases hzero : s = 0
  · subst hzero
    have hunpacked : unpacked (Float.ofInt 0) = .zero .positive := rfl
    rw [hunpacked]
    intro h
    cases h
  · obtain ⟨t', m', e', hm', heq', -⟩ := normal_ofInt hzero hs
    rw [heq']
    exact roundWithAccuracy_ne_nan _ _ _ _

end Sharding
