import Mathlib.Data.List.Basic
import Mathlib.Data.List.TakeWhile
import Mathlib.Tactic.IntervalCases
import Sharding.Number.Decimal

/-!
# Reading decimals back

Nothing about a decimal is lost in its text.  A `Numeral` is what may stand for a decimal: a sign,
the digits in front of the point, without needless zeros, and the digits behind it.
`Decimal.read?` reads a text as a decimal: the mantissa is made of all digits, and the scale is the
number of those behind the point.

* `Numeral.digits?_unsigned` and `Decimal.read?_ofList`: a numeral is read as the decimal that has
  its mantissa and its number of digits behind the point.
* `Decimal.chars_numeral` and `Decimal.mantissa_numeral`: a decimal is written as a numeral with
  the decimal's mantissa.
* `Decimal.text_reads_back` puts them together.
-/

namespace Sharding

/-! ## Digits -/

/-- The number that some digits stand for. -/
def digitsValue (ds : List Char) : Nat :=
  Nat.ofDigitChars 10 ds 0

theorem digitsValue_zeros_append (k : Nat) (ds : List Char) :
    digitsValue (List.replicate k '0' ++ ds) = digitsValue ds := by
  rw [digitsValue, Nat.ofDigitChars_append, Nat.ofDigitChars_replicate_zero, Nat.mul_zero]
  rfl

/-- Only the number zero is written with a zero in front. -/
theorem eq_zero_of_head?_decimalDigits {n : Nat} (h : (decimalDigits n).head? = some '0') :
    n = 0 := by
  induction n using Nat.strongRecOn with
  | ind n ih =>
    by_cases hsmall : n < 10
    · rw [decimalDigits, Nat.toDigits_of_lt_base hsmall] at h
      interval_cases n
      · rfl
      all_goals exact absurd h (by decide)
    · have hdigits : decimalDigits n = decimalDigits (n / 10) ++ [Nat.digitChar (n % 10)] :=
        Nat.toDigits_of_base_le (by decide) (by omega)
      have hfront : decimalDigits (n / 10) ≠ [] := Nat.toDigits_ne_nil
      rw [hdigits, List.head?_append_of_ne_nil _ hfront] at h
      have hzero := ih (n / 10) (by omega) h
      omega

/-! ## Numerals -/

/-- A number in decimal notation.  There is a point exactly when there are digits behind it. -/
structure Numeral where
  negative : Bool
  /-- The digits in front of the point. -/
  whole : List Char
  /-- The digits behind the point. -/
  fraction : List Char
  whole_ne_nil : whole ≠ []
  /-- No needless zero stands in front. -/
  whole_zero : whole.head? = some '0' → whole = ['0']
  isDigit : ∀ c ∈ whole ++ fraction, c.isDigit = true

namespace Numeral

variable (n : Numeral)

/-- The numeral without its sign. -/
def unsigned : List Char :=
  n.whole ++ if n.fraction = [] then [] else '.' :: n.fraction

/-- The characters of the numeral. -/
def chars : List Char :=
  (if n.negative then ['-'] else []) ++ n.unsigned

/-- The number that all digits stand for, with the sign. -/
def mantissa : Int :=
  if n.negative then -(digitsValue (n.whole ++ n.fraction) : Int)
  else digitsValue (n.whole ++ n.fraction)

end Numeral

/-! ## Reading -/

/-- All digits of a number that may have a point, and the number of those behind the point.  Digits
stand on both sides of a point. -/
def digits? (cs : List Char) : Option (List Char × Nat) :=
  let whole := cs.takeWhile Char.isDigit
  match cs.dropWhile Char.isDigit with
  | [] => if whole = [] then none else some (whole, 0)
  | point :: fraction =>
    if point = '.' ∧ whole ≠ [] ∧ fraction ≠ [] ∧ fraction.all Char.isDigit then
      some (whole ++ fraction, fraction.length)
    else none

/-- Whether there is a minus sign in front, and what stands behind it. -/
def splitSign : List Char → Bool × List Char
  | '-' :: cs => (true, cs)
  | cs => (false, cs)

/-- Reads a text as a decimal, unless its mantissa or its scale is too large for one. -/
def Decimal.read? (text : String) : Option Decimal := do
  let (negative, cs) := splitSign text.toList
  let (digits, places) ← digits? cs
  let mantissa ← Int128.ofInt?
    (if negative then -(digitsValue digits : Int) else digitsValue digits)
  if places < 256 then some ⟨mantissa, UInt8.ofNat places⟩ else none

namespace Numeral

variable {n : Numeral}

theorem isDigit_whole : ∀ c ∈ n.whole, c.isDigit = true :=
  fun c hc => n.isDigit c (List.mem_append_left _ hc)

theorem isDigit_fraction : ∀ c ∈ n.fraction, c.isDigit = true :=
  fun c hc => n.isDigit c (List.mem_append_right _ hc)

/-- The digits end at the point, which is none itself. -/
theorem digits?_unsigned (n : Numeral) :
    digits? n.unsigned = some (n.whole ++ n.fraction, n.fraction.length) := by
  by_cases hfraction : n.fraction = []
  · have htake : n.whole.takeWhile Char.isDigit = n.whole :=
      List.takeWhile_eq_self_iff.2 isDigit_whole
    have hdrop : n.whole.dropWhile Char.isDigit = [] :=
      List.dropWhile_eq_nil_iff.2 isDigit_whole
    simp [digits?, unsigned, hfraction, htake, hdrop, n.whole_ne_nil]
  · have hpoint : ('.' : Char).isDigit = false := by decide
    have htake : (n.whole ++ '.' :: n.fraction).takeWhile Char.isDigit = n.whole := by
      rw [List.takeWhile_append_of_pos isDigit_whole, List.takeWhile_cons, hpoint]
      exact List.append_nil _
    have hdrop : (n.whole ++ '.' :: n.fraction).dropWhile Char.isDigit = '.' :: n.fraction := by
      rw [List.dropWhile_append_of_pos isDigit_whole, List.dropWhile_cons, hpoint]
      rfl
    have hall : n.fraction.all Char.isDigit = true := List.all_eq_true.2 isDigit_fraction
    rw [unsigned, if_neg hfraction, digits?, htake, hdrop]
    exact if_pos ⟨rfl, n.whole_ne_nil, hfraction, hall⟩

/-- A numeral without a sign starts with a digit. -/
theorem splitSign_chars (n : Numeral) : splitSign n.chars = (n.negative, n.unsigned) := by
  rw [chars]
  cases n.negative with
  | true => rfl
  | false =>
    obtain ⟨c, rest, hwhole⟩ := List.exists_cons_of_ne_nil n.whole_ne_nil
    have hdigit : c.isDigit = true := isDigit_whole c (hwhole ▸ List.mem_cons_self)
    have hsign : c ≠ '-' := by
      rintro rfl
      exact absurd hdigit (by decide)
    show splitSign n.unsigned = _
    rw [unsigned, hwhole]
    exact splitSign.eq_2 _ fun cs hcs => hsign (List.cons.inj hcs).1

end Numeral

namespace Decimal

/-- A numeral is read as the decimal with its mantissa and as many places as it has digits behind
the point. -/
theorem read?_ofList {n : Numeral} {d : Decimal} (hmantissa : n.mantissa = d.mantissa.toInt)
    (hscale : n.fraction.length = d.scale.toNat) : read? (String.ofList n.chars) = some d := by
  have hfits : Int128.ofInt? n.mantissa = some d.mantissa :=
    Int128.ofInt?_eq_some.2 hmantissa.symm
  have hplaces : d.scale.toNat < 256 := d.scale.toNat_lt
  simp only [read?, String.toList_ofList, n.splitSign_chars, n.digits?_unsigned,
    Option.bind_eq_bind, Option.bind_some]
  rw [← Numeral.mantissa, hfits, hscale, Option.bind_some, if_pos hplaces, UInt8.ofNat_toNat]

/-! ## Writing -/

variable (d : Decimal)

/-- There is at least one digit in front of the point. -/
theorem scale_lt_length_paddedDigits : d.scale.toNat < d.paddedDigits.length := by
  rw [paddedDigits, List.length_append, List.length_replicate]
  omega

theorem isDigit_of_mem_paddedDigits {c : Char} (h : c ∈ d.paddedDigits) : c.isDigit = true := by
  rw [paddedDigits, List.mem_append] at h
  rcases h with hzero | hdigit
  · rw [List.eq_of_mem_replicate hzero]
    rfl
  · exact Nat.isDigit_of_mem_toDigits (by decide) (by decide) hdigit

theorem digitsValue_paddedDigits : digitsValue d.paddedDigits = d.mantissa.toInt.natAbs := by
  rw [paddedDigits, digitsValue_zeros_append]
  exact Nat.ofDigitChars_ten_toDigits

/-- A zero in front of the point either is the padding, of which just one digit stands there, or
belongs to the number zero. -/
theorem take_paddedDigits_zero {whole : List Char}
    (hwhole : whole = d.paddedDigits.take (d.paddedDigits.length - d.scale.toNat))
    (hzero : whole.head? = some '0') : whole = ['0'] := by
  have hpositive := d.scale_lt_length_paddedDigits
  have hhead : d.paddedDigits.head? = some '0' := by
    rw [← hzero, hwhole, List.head?_take, if_neg (by omega)]
  obtain ⟨rest, hrest⟩ : ∃ rest, d.paddedDigits = '0' :: rest := List.head?_eq_some_iff.1 hhead
  -- one digit stands in front of the point
  suffices hone : d.paddedDigits.length - d.scale.toNat = 1 by
    rw [hwhole, hone, hrest]
    rfl
  have hlength : 0 < (decimalDigits d.mantissa.toInt.natAbs).length := Nat.length_toDigits_pos
  have hpadded : d.paddedDigits = List.replicate
      (d.scale.toNat + 1 - (decimalDigits d.mantissa.toInt.natAbs).length) '0' ++
        decimalDigits d.mantissa.toInt.natAbs := rfl
  by_cases hshort : (decimalDigits d.mantissa.toInt.natAbs).length ≤ d.scale.toNat
  · rw [hpadded, List.length_append, List.length_replicate]
    omega
  · have hnone : d.scale.toNat + 1 - (decimalDigits d.mantissa.toInt.natAbs).length = 0 := by omega
    rw [hnone, List.replicate_zero, List.nil_append] at hpadded
    rw [hpadded] at hhead ⊢
    rw [eq_zero_of_head?_decimalDigits hhead] at hshort ⊢
    rw [decimalDigits, Nat.toDigits_zero, List.length_singleton] at hshort ⊢
    omega

/-- The numeral that a decimal is written as. -/
def numeral : Numeral where
  negative := d.mantissa.toInt < 0
  whole := d.paddedDigits.take (d.paddedDigits.length - d.scale.toNat)
  fraction := d.paddedDigits.drop (d.paddedDigits.length - d.scale.toNat)
  whole_ne_nil h := by
    have hpositive := d.scale_lt_length_paddedDigits
    have hlength := congrArg List.length h
    rw [List.length_take, List.length_nil] at hlength
    omega
  whole_zero := d.take_paddedDigits_zero rfl
  isDigit c hc := by
    rw [List.take_append_drop] at hc
    exact d.isDigit_of_mem_paddedDigits hc

theorem length_fraction_numeral : d.numeral.fraction.length = d.scale.toNat := by
  have hpositive := d.scale_lt_length_paddedDigits
  show (d.paddedDigits.drop _).length = _
  rw [List.length_drop]
  omega

theorem mantissa_numeral : d.numeral.mantissa = d.mantissa.toInt := by
  have hdigits : digitsValue (d.numeral.whole ++ d.numeral.fraction) = d.mantissa.toInt.natAbs := by
    rw [← d.digitsValue_paddedDigits]
    exact congrArg digitsValue (List.take_append_drop _ _)
  have hsign : d.numeral.negative = decide (d.mantissa.toInt < 0) := rfl
  rw [Numeral.mantissa, hdigits, hsign]
  by_cases hnegative : d.mantissa.toInt < 0
  · rw [decide_eq_true hnegative, if_pos rfl]
    omega
  · rw [decide_eq_false hnegative, if_neg Bool.false_ne_true]
    omega

/-- The point is written where digits stand behind it. -/
theorem chars_numeral : d.numeral.chars = d.chars := by
  have hpoint : d.numeral.fraction = [] ↔ d.scale = 0 := by
    rw [← List.length_eq_zero_iff, d.length_fraction_numeral, ← UInt8.toNat_inj]
    rfl
  have hsign : d.numeral.negative = true ↔ d.mantissa.toInt < 0 := decide_eq_true_iff
  simp only [Numeral.chars, Numeral.unsigned, hpoint, hsign]
  rw [← List.append_assoc]
  rfl

/-- The text of a decimal is a numeral with as many digits behind the point as the scale says, and
a minus sign only for negative mantissas.  It is read back as the same mantissa and scale, so it
tells all decimals apart. -/
theorem text_reads_back :
    (∀ d : Decimal, (∃ n : Numeral, d.text = String.ofList n.chars ∧
        (n.negative = true ↔ d.mantissa.toInt < 0) ∧ n.fraction.length = d.scale.toNat) ∧
      read? d.text = some d) ∧
    Function.Injective Decimal.text := by
  have hread : ∀ d : Decimal, read? d.text = some d := fun d => by
    rw [text, ← d.chars_numeral]
    exact read?_ofList d.mantissa_numeral d.length_fraction_numeral
  refine ⟨fun d => ⟨⟨d.numeral, ?_, decide_eq_true_iff, d.length_fraction_numeral⟩, hread d⟩,
    fun d e htext => ?_⟩
  · rw [text, d.chars_numeral]
  · have hsame := hread d
    rw [htext, hread e] at hsame
    exact (Option.some.inj hsame).symm

/-- The least mantissa, with a point in front of all its digits. -/
example : text ⟨{ toInt := -170141183460469231731687303715884105728 }, 40⟩ =
    "-0.0170141183460469231731687303715884105728" := by
  decide +kernel

end Decimal

end Sharding
