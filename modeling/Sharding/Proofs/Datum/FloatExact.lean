import Sharding.Proofs.Datum.Double
import Sharding.Proofs.Datum.FloatOrder

/-!
# Integers that are floats

An integer of at most 53 bits is a float itself: filled up with zeros to 53 bits it is the mantissa,
and nothing is rounded (`unpacked_ofInt`).  So the order of such integers is that of their floats
(`compareFloats_ofInt`).
-/

namespace Sharding

open Float.Model UnpackedFloat

/-! ## Rounding -/

/-- A mantissa is shifted so far that 53 bits are left of it. -/
theorem shiftAmount_eq (m : Nat) {e : Int} (he : -1074 ≤ e) :
    (Format.binary64.targetExponent (totalExponent m e) - e).toNat = m.log2 - 52 := by
  have htarget : Format.binary64.targetExponent (totalExponent m e) =
      max ((m.log2 : Int) + 1 + e - 53) (-1074) := rfl
  rw [htarget]
  omega

/-- Zeros are shifted out without a trace. -/
theorem shiftRight_zeros (m k : Nat) :
    ExtendedMantissa.mk (m * 2 ^ k) false false >>> k = ⟨m, false, false⟩ := by
  induction k generalizing m with
  | zero => rw [Nat.pow_zero, Nat.mul_one]; rfl
  | succ k ih =>
    have hone : ExtendedMantissa.shiftRightOne ⟨m * 2, false, false⟩ = ⟨m, false, false⟩ := by
      simp [ExtendedMantissa.shiftRightOne]
    rw [Nat.pow_succ', ← Nat.mul_assoc]
    calc ExtendedMantissa.mk (m * 2 * 2 ^ k) false false >>> (k + 1)
        = (ExtendedMantissa.mk (m * 2 * 2 ^ k) false false >>> k).shiftRightOne := rfl
      _ = ⟨m, false, false⟩ := by rw [ih, hone]

theorem log2_full {m : Nat} (hge : 2 ^ 52 ≤ m) (hlt : m < 2 ^ 53) : m.log2 = 52 :=
  (Nat.log2_eq_iff (by omega)).mpr ⟨hge, hlt⟩

theorem log2_mul_two_pow {m : Nat} (hm : 0 < m) (k : Nat) : (m * 2 ^ k).log2 = m.log2 + k := by
  have hne : m * 2 ^ k ≠ 0 := Nat.ne_of_gt (Nat.mul_pos hm (Nat.two_pow_pos k))
  refine (Nat.log2_eq_iff hne).mpr ⟨?_, ?_⟩
  · rw [Nat.pow_add]
    exact Nat.mul_le_mul_right _ (Nat.log2_self_le (Nat.ne_of_gt hm))
  · rw [Nat.add_right_comm, Nat.pow_add]
    exact Nat.mul_lt_mul_of_pos_right Nat.lt_log2_self (Nat.two_pow_pos k)

/-- A mantissa of 53 bits and zeros behind it lose only the zeros. -/
theorem roundWithAccuracy_zeros (s : Sign) {m k : Nat} (hm : 0 < m) (hge : 2 ^ 52 ≤ m)
    (hlt : m < 2 ^ 53) {e : Int} (he : -1074 ≤ e) :
    roundWithAccuracy Format.binary64 s (m * 2 ^ k) e .exact = .finite s m (e + k) hm := by
  have hnarrow : m.log2 - 52 = 0 := by rw [log2_full hge hlt]
  have hwide : (m * 2 ^ k).log2 - 52 = k := by
    rw [log2_mul_two_pow hm, log2_full hge hlt]
    omega
  have hfirst : ExtendedMantissa.ofMantissaAndAccuracy (m * 2 ^ k) .exact >>> k =
      ⟨m, false, false⟩ := shiftRight_zeros m k
  have hrounded : (ExtendedMantissa.mk m false false).roundedMantissa = m := rfl
  have hsecond : ExtendedMantissa.ofMantissaAndAccuracy m .exact >>> 0 = ⟨m, false, false⟩ := rfl
  unfold roundWithAccuracy shiftToTargetExponent shiftToExponent
  simp only [shiftAmount_eq _ he, hwide, hfirst, hrounded,
    shiftAmount_eq m (show -1074 ≤ e + (k : Int) by omega), hnarrow, hsecond]
  rw [dif_neg (Nat.ne_of_gt hm)]
  congr 1
  omega

/-! ## Packing -/

/-- What is left of an unpacked float when it is packed into 64 bits. -/
def repacked (u : UnpackedFloat) : UnpackedFloat :=
  UnpackedFloat.unpack Format.binary64 (UnpackedFloat.pack Format.binary64 u)

/-- The bit that is not stored makes a mantissa one of 53 bits. -/
theorem le_mantissa (m : BitVec 52) : 2 ^ 52 ≤ (1#1 ++ m).toNat := by
  rw [BitVec.toNat_append]
  exact Nat.left_le_or

/-- Unpacking reads the components that were packed. -/
theorem unpack_packComponents (s : Sign) (x : BitVec 11) (m : BitVec 52) (hx : x ≠ -1#_) :
    UnpackedFloat.unpack Format.binary64 (packComponents Format.binary64 s x m) =
      if x = 0#_ then
        if h : m = 0#_ then .zero s
        else .finite s m.toNat (-1074) (by simpa [BitVec.toNat_pos, BitVec.pos_iff_ne_zero])
      else .finite s (1#1 ++ m).toNat (x.toNat - 1075) ((Nat.two_pow_pos 52).trans_le
        (le_mantissa m)) := by
  unfold UnpackedFloat.unpack
  simp only [unpackExponent_packComponents, unpackMantissa_packComponents]
  rw [unpackSign_packComponents, Sign.ofBitVec_toBitVec, if_neg hx]
  by_cases hzero : x = 0#_
  · subst hzero
    rfl
  · rw [if_neg hzero, if_neg hzero]
    rfl

/-- A float with 53 bits and an exponent in the middle of the range is packed as it is. -/
theorem repacked_finite (s : Sign) {m : Nat} {e : Int} (hm : 0 < m) (hge : 2 ^ 52 ≤ m)
    (hlt : m < 2 ^ 53) (hbottom : -1074 ≤ e) (htop : e ≤ 900) :
    repacked (.finite s m e hm) = .finite s m e hm := by
  obtain ⟨biased, hbiased⟩ : ∃ biased : Nat, (biased : Int) = e + 1075 :=
    ⟨(e + 1075).toNat, Int.toNat_of_nonneg (by omega)⟩
  have hlog : m.log2 + 1 = Format.binary64.mantissaBits := by
    rw [log2_full hge hlt]
    rfl
  have hexponent : (e + Format.binary64.exponentBias +
      Format.binary64.mantissaBitsWithoutImplicit).toNat = biased := by
    have hbias : Format.binary64.exponentBias = 1023 := by decide
    have hbits : Format.binary64.mantissaBitsWithoutImplicit = 52 := rfl
    rw [hbias, hbits]
    omega
  have hpack : UnpackedFloat.pack Format.binary64 (.finite s m e hm) =
      packComponents Format.binary64 s (BitVec.ofNat 11 biased) (BitVec.ofNat 52 m) := by
    have hsmall : ¬ 2 ^ Format.binary64.exponentBits ≤ biased + 1 := by
      show ¬ 2048 ≤ biased + 1
      omega
    unfold UnpackedFloat.pack
    dsimp only
    rw [hexponent, if_neg hsmall, if_pos hlog]
  have htoNat : (BitVec.ofNat 11 biased).toNat = biased := by
    rw [BitVec.toNat_ofNat]
    exact Nat.mod_eq_of_lt (by omega)
  have hnegOne : BitVec.ofNat 11 biased ≠ -1#_ := by
    intro heq
    have : biased = 2047 := by rw [← htoNat, heq]; rfl
    omega
  have hne : BitVec.ofNat 11 biased ≠ 0#_ := by
    intro heq
    have : biased = 0 := by rw [← htoNat, heq]; rfl
    omega
  -- the bit that is not stored is the highest of the mantissa
  have hmantissa : (1#1 ++ BitVec.ofNat 52 m).toNat = m := by
    rw [BitVec.toNat_append, ← Nat.shiftLeft_add_eq_or_of_lt (BitVec.isLt _), BitVec.toNat_ofNat]
    show 1 <<< 52 + m % 2 ^ 52 = m
    omega
  have hunpacked := unpack_packComponents s _ (BitVec.ofNat 52 m) hnegOne
  rw [if_neg hne] at hunpacked
  unfold repacked
  rw [hpack, hunpacked]
  congr 1
  omega

/-! ## Natural numbers as floats -/

/-- A natural number, filled up with zeros to a mantissa of 53 bits. -/
def filled (n : Nat) : Nat :=
  n * 2 ^ (52 - n.log2)

variable {n : Nat}

theorem filled_pos (hpos : 0 < n) : 0 < filled n :=
  Nat.mul_pos hpos (Nat.two_pow_pos _)

theorem log2_le (hn : n < 2 ^ 53) : n.log2 ≤ 52 := by
  by_cases hzero : n = 0
  · subst hzero
    decide
  · exact Nat.le_of_lt_succ ((Nat.log2_lt hzero).mpr hn)

theorem filled_bounds (hpos : 0 < n) (hn : n < 2 ^ 53) :
    2 ^ 52 ≤ filled n ∧ filled n < 2 ^ 53 := by
  have hne := Nat.ne_of_gt (filled_pos hpos)
  refine (Nat.log2_eq_iff hne).mp ?_
  have hle := log2_le hn
  rw [filled, log2_mul_two_pow hpos]
  omega

/-- A natural number as a float that has not been rounded. -/
def wholeFloat (s : Sign) (n : Nat) (hpos : 0 < n) : UnpackedFloat :=
  .finite s (filled n) (n.log2 - 52) (filled_pos hpos)

theorem round_eq_wholeFloat (s : Sign) (hpos : 0 < n) (hn : n < 2 ^ 53) :
    UnpackedFloat.round Format.binary64 s n 0 = wholeFloat s n hpos := by
  have hlog := log2_le hn
  obtain ⟨hge, hlt⟩ := filled_bounds hpos hn
  have htarget : Format.binary64.targetExponent (totalExponent n 0) = (n.log2 : Int) - 52 := by
    show max ((n.log2 : Int) + 1 + 0 - 53) (-1074) = (n.log2 : Int) - 52
    omega
  have hshift : (0 - ((n.log2 : Int) - 52)).toNat = 52 - n.log2 := by omega
  have hexponent : (0 : Int) - (52 - n.log2 : Nat) = n.log2 - 52 := by omega
  have hround := roundWithAccuracy_zeros s (k := 0) (filled_pos hpos) hge hlt
    (show -1074 ≤ (n.log2 : Int) - 52 by omega)
  unfold UnpackedFloat.round decreaseExponent
  simp only [htarget, hshift, hexponent, Nat.shiftLeft_eq]
  rw [Nat.pow_zero, Nat.mul_one, Int.natCast_zero, Int.add_zero] at hround
  exact hround

theorem repacked_wholeFloat (s : Sign) (hpos : 0 < n) (hn : n < 2 ^ 53) :
    repacked (wholeFloat s n hpos) = wholeFloat s n hpos := by
  have hlog := log2_le hn
  obtain ⟨hge, hlt⟩ := filled_bounds hpos hn
  exact repacked_finite s _ hge hlt (by omega) (by omega)

/-- A natural number of 53 bits is made a float and multiplied by one. -/
theorem ofNat_eq_mul_one (hn : n < 2 ^ 53) :
    Float.ofNat n = n.toUInt64.toFloat * Float.ofBits 0x3FF0000000000000 := by
  show Float.ofScientific n false 0 = _
  unfold Float.ofScientific
  rw [dif_pos ⟨hn, by decide⟩]
  rfl

theorem unpacked_toFloat (hpos : 0 < n) (hn : n < 2 ^ 64) :
    unpacked n.toUInt64.toFloat =
      repacked (UnpackedFloat.round Format.binary64 .positive n 0) := by
  have htoNat : n.toUInt64.toNat = n := UInt64.toNat_ofNat_of_lt hn
  have hgt : compare (n : Int) 0 = .gt := by
    rw [Int.compare_eq_gt]
    omega
  have hnormalize : UnpackedFloat.normalize Format.binary64 (n.toUInt64.toNat : Int) 0 .positive =
      UnpackedFloat.round Format.binary64 .positive n 0 := by
    unfold UnpackedFloat.normalize
    rw [htoNat, hgt]
    rfl
  rw [← hnormalize]
  rfl

theorem unpacked_ofNat (hpos : 0 < n) (hn : n < 2 ^ 53) :
    unpacked (Float.ofNat n) = wholeFloat .positive n hpos := by
  have hone : unpacked (Float.ofBits 0x3FF0000000000000) =
      .finite .positive (2 ^ 52) (-52) (Nat.two_pow_pos 52) := rfl
  have hfactor : unpacked n.toUInt64.toFloat = wholeFloat .positive n hpos := by
    rw [unpacked_toFloat hpos (hn.trans (by decide)), round_eq_wholeFloat _ hpos hn,
      repacked_wholeFloat _ hpos hn]
  have hlog := log2_le hn
  obtain ⟨hge, hlt⟩ := filled_bounds hpos hn
  have hproduct := roundWithAccuracy_zeros (.positive * .positive) (k := 52) (filled_pos hpos)
    hge hlt (show -1074 ≤ (n.log2 : Int) - 52 + -52 by omega)
  have hexponent : (n.log2 : Int) - 52 + -52 + (52 : Nat) = n.log2 - 52 := by omega
  rw [ofNat_eq_mul_one hn]
  show repacked (UnpackedFloat.mul Format.binary64 (unpacked n.toUInt64.toFloat)
    (unpacked (Float.ofBits 0x3FF0000000000000))) = _
  rw [hfactor, hone]
  rw [hexponent] at hproduct
  exact (congrArg repacked hproduct).trans (repacked_wholeFloat _ hpos hn)

/-! ## Integers as floats -/

/-- The sign of an integer other than zero. -/
def signOf (n : Int) : Sign :=
  if n < 0 then .negative else .positive

theorem unpacked_ofInt {n : Int} (hne : n ≠ 0) (hn : n.natAbs < 2 ^ 53) :
    unpacked (Float.ofInt n) = wholeFloat (signOf n) n.natAbs (Int.natAbs_pos.2 hne) := by
  cases n with
  | ofNat n =>
    have hpos : 0 < n := Int.natAbs_pos.2 hne
    have hsign : signOf (.ofNat n) = .positive := if_neg (Int.not_lt.2 (Int.natCast_nonneg n))
    rw [hsign]
    exact unpacked_ofNat hpos hn
  | negSucc n =>
    have hsign : signOf (.negSucc n) = .negative := if_pos (Int.negSucc_lt_zero n)
    rw [hsign]
    show repacked (unpacked (Float.ofNat n.succ)).neg = _
    rw [unpacked_ofNat n.succ_pos hn]
    exact repacked_wholeFloat .negative n.succ_pos hn

theorem unpacked_ofInt_ne_nan {n : Int} (hn : n.natAbs < 2 ^ 53) :
    unpacked (Float.ofInt n) ≠ .notANumber := by
  by_cases hzero : n = 0
  · subst hzero
    have hunpacked : unpacked (Float.ofInt 0) = .zero .positive := rfl
    rw [hunpacked]
    intro h
    cases h
  · rw [unpacked_ofInt hzero hn]
    intro h
    cases h

/-- What an integer is compared by when it is made a float. -/
def wholeKey (n : Int) : Int × Int × Int :=
  (n.sign, n.sign * (n.natAbs.log2 - 52), n.sign * filled n.natAbs)

theorem floatKey_ofInt {n : Int} (hn : n.natAbs < 2 ^ 53) :
    floatKey (unpacked (Float.ofInt n)) = wholeKey n := by
  unfold wholeKey
  rcases Int.lt_trichotomy n 0 with hneg | rfl | hpos
  · have hsign : signOf n = .negative := if_pos hneg
    rw [unpacked_ofInt (Int.ne_of_lt hneg) hn, hsign, Int.sign_eq_neg_one_of_neg hneg,
      Int.neg_one_mul, Int.neg_one_mul]
    rfl
  · rfl
  · have hsign : signOf n = .positive := if_neg (Int.not_lt.2 (Int.le_of_lt hpos))
    rw [unpacked_ofInt (Int.ne_of_gt hpos) hn, hsign, Int.sign_eq_one_of_pos hpos,
      Int.one_mul, Int.one_mul]
    rfl

/-- The longer of two numbers is the larger one, and of two of one length the one with the larger
mantissa. -/
theorem compare_filled {m n : Nat} (hm : 0 < m) (hn : 0 < n) :
    (compare ((m.log2 : Int) - 52) (n.log2 - 52)).then (compare (filled m : Int) (filled n)) =
      compare (m : Int) n := by
  have hlonger : ∀ {i j : Nat}, 0 < j → i.log2 < j.log2 → (i : Int) < j := by
    intro i j hj hlt
    have hlt : i < j := Nat.lt_log2_self.trans_le <|
      (Nat.pow_le_pow_right (by decide) hlt).trans (Nat.log2_self_le (Nat.ne_of_gt hj))
    omega
  rcases Nat.lt_trichotomy m.log2 n.log2 with hlt | heq | hgt
  · rw [Int.compare_eq_lt.2 (hlonger hn hlt)]
    have hexponent : compare ((m.log2 : Int) - 52) (n.log2 - 52) = .lt :=
      Int.compare_eq_lt.2 (by omega)
    rw [hexponent]
    rfl
  · rw [heq, Int.compare_eq_eq.2 rfl, compare_natCast, compare_natCast, filled, filled, heq,
      ← cmp_eq_compare, ← cmp_eq_compare, cmp_mul_pos_right (Nat.two_pow_pos _)]
    rfl
  · rw [Int.compare_eq_gt.2 (hlonger hm hgt)]
    have hexponent : compare ((m.log2 : Int) - 52) (n.log2 - 52) = .gt :=
      Int.compare_eq_gt.2 (by omega)
    rw [hexponent]
    rfl

theorem sign_cases (n : Int) :
    (n < 0 ∧ n.sign = -1) ∨ (n = 0 ∧ n.sign = 0) ∨ (0 < n ∧ n.sign = 1) := by
  rcases Int.lt_trichotomy n 0 with h | h | h
  · exact .inl ⟨h, Int.sign_eq_neg_one_of_neg h⟩
  · exact .inr (.inl ⟨h, Int.sign_eq_zero_iff_zero.2 h⟩)
  · exact .inr (.inr ⟨h, Int.sign_eq_one_of_pos h⟩)

/-- The keys of integers are in the order of the integers. -/
theorem compareKeys_wholeKey (a b : Int) :
    compareKeys (wholeKey a) (wholeKey b) = compare a b := by
  have ha := sign_cases a
  have hb := sign_cases b
  unfold compareKeys wholeKey
  rcases Int.lt_trichotomy a.sign b.sign with hlt | heq | hgt
  · rw [Int.compare_eq_lt.2 hlt, Int.compare_eq_lt.2 (show a < b by omega)]
    rfl
  · rw [heq, Int.compare_eq_eq.2 rfl, Ordering.eq_then]
    rcases hb with ⟨hb, hs⟩ | ⟨hb, hs⟩ | ⟨hb, hs⟩
    · -- below zero the parts count backwards
      have hnegA : a = -(a.natAbs : Int) := by omega
      have hnegB : b = -(b.natAbs : Int) := by omega
      have hmagnitude := @compare_filled a.natAbs b.natAbs (by omega) (by omega)
      rw [hs, Int.neg_one_mul, Int.neg_one_mul, Int.neg_one_mul, Int.neg_one_mul, compare_neg,
        compare_neg, ← Ordering.swap_then, hmagnitude, ← compare_neg, ← hnegA, ← hnegB]
    · obtain rfl : a = 0 := by omega
      rw [hb]
      rfl
    · have hposA : (a.natAbs : Int) = a := by omega
      have hposB : (b.natAbs : Int) = b := by omega
      have hmagnitude := @compare_filled a.natAbs b.natAbs (by omega) (by omega)
      rw [hs, Int.one_mul, Int.one_mul, Int.one_mul, Int.one_mul, hmagnitude, hposA, hposB]
  · rw [Int.compare_eq_gt.2 hgt, Int.compare_eq_gt.2 (show b < a by omega)]
    rfl

/-- Integers of at most 53 bits are in the order of their floats. -/
theorem compareFloats_ofInt {a b : Int} (ha : a.natAbs < 2 ^ 53) (hb : b.natAbs < 2 ^ 53) :
    compareFloats (Float.ofInt a) (Float.ofInt b) = some (compare a b) := by
  rw [compareFloats_of_ne (unpacked_ofInt_ne_nan ha) (unpacked_ofInt_ne_nan hb),
    floatKey_ofInt ha, floatKey_ofInt hb, compareKeys_wholeKey]

end Sharding
