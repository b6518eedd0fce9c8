import Sharding.Number.Int128
import Sharding.Number.Power

/-!
# Fixed-point decimals

A `Decimal` is a mantissa of 128 bits and a scale: it stands for the mantissa divided by ten to
the scale.  Two different pairs can stand for the same number, and `Decimal.trim` picks the one
with the smallest scale.

`Decimal.text` writes a decimal with exactly as many digits after the point as its scale says, so
the pair can be read off the text.  `Decimal.align` brings two decimals to the larger of their
scales by multiplying one mantissa, keeping the low 128 bits of the product.
-/

namespace Sharding

/-- The number `mantissa / 10 ^ scale`. -/
structure Decimal where
  mantissa : Int128
  scale : UInt8
deriving DecidableEq

/-- The decimal digits of `n`, without leading zeros; `0` has the one digit zero. -/
def decimalDigits (n : Nat) : List Char :=
  Nat.toDigits 10 n

/-- An integer in decimal, with a minus sign when it is negative. -/
def intText (n : Int) : String :=
  String.ofList (if n < 0 then '-' :: decimalDigits n.natAbs else decimalDigits n.natAbs)

namespace Decimal

/-- The digits of the mantissa, padded with zeros in front until at least one digit stands
before the point. -/
def paddedDigits (d : Decimal) : List Char :=
  let digits := decimalDigits d.mantissa.toInt.natAbs
  List.replicate (d.scale.toNat + 1 - digits.length) '0' ++ digits

/-- The written form of a decimal: a minus sign for a negative mantissa, the integer part and,
for a positive scale, a point and `scale` digits. -/
def chars (d : Decimal) : List Char :=
  let digits := d.paddedDigits
  let whole := digits.length - d.scale.toNat
  (if d.mantissa.toInt < 0 then ['-'] else []) ++ digits.take whole ++
    (if d.scale = 0 then [] else '.' :: digits.drop whole)

/-- The written form as a text. -/
def text (d : Decimal) : String :=
  String.ofList d.chars

/-- Takes trailing zeros off a mantissa while some scale is left. -/
def stripZeros (m : Int128) : Nat → Int128 × Nat
  | 0 => (m, 0)
  | s + 1 => if m.toInt % 10 = 0 then stripZeros m.tenth s else (m, s + 1)

/-- The decimal of the same value with the smallest scale. -/
def trim (d : Decimal) : Decimal :=
  let (m, s) := stripZeros d.mantissa d.scale.toNat
  ⟨m, UInt8.ofNat s⟩

/-- The mantissa `m` brought up by `k` decimal places, in 128 bits. -/
def scaleUp (m : Int128) (k : Nat) : Int128 :=
  Int128.wrap (m.toInt * tenTo k)

/-- Both mantissas at the larger of the two scales, and that scale. -/
def align (a b : Decimal) : Int128 × Int128 × UInt8 :=
  match compare a.scale.toNat b.scale.toNat with
  | .eq => (a.mantissa, b.mantissa, a.scale)
  | .lt => (scaleUp a.mantissa (b.scale.toNat - a.scale.toNat), b.mantissa, b.scale)
  | .gt => (a.mantissa, scaleUp b.mantissa (a.scale.toNat - b.scale.toNat), a.scale)

/-- The order of two decimals after `align`. -/
def compare (a b : Decimal) : Ordering :=
  let (x, y, _) := align a b
  Ord.compare x.toInt y.toInt

/-- The sum at the larger scale, unless it leaves 128 bits. -/
def add? (a b : Decimal) : Option Decimal :=
  let (x, y, scale) := align a b
  (Int128.ofInt? (x.toInt + y.toInt)).map (⟨·, scale⟩)

/-- The sum with an integer at the decimal's own scale, unless the power of ten, the scaled
integer or the sum leaves 128 bits. -/
def addInt? (d : Decimal) (n : Int) : Option Decimal := do
  let power ← Int128.ofInt? (tenTo d.scale.toNat)
  let scaled ← Int128.ofInt? (n * power.toInt)
  let sum ← Int128.ofInt? (d.mantissa.toInt + scaled.toInt)
  return ⟨sum, d.scale⟩

/-- The order of a decimal and an integer, with the integer brought to the decimal's scale in 128
bits. -/
def compareInt (d : Decimal) (n : Int) : Ordering :=
  Ord.compare d.mantissa.toInt (Int128.wrap (n * tenTo d.scale.toNat)).toInt

/-- Ten to the power `n` by repeated squaring, least binary digit first: `acc` holds the product
of the powers taken so far and `base` the next square.  The first argument bounds the number of
binary digits. -/
def powTenFrom : Nat → Nat → Float → Float → Float
  | 0, _, acc, _ => acc
  | steps + 1, n, acc, base =>
    let acc := if n % 2 = 1 then acc * base else acc
    if n / 2 = 0 then acc else powTenFrom steps (n / 2) acc (base * base)

/-- Ten to the power `n`, rounded at each step of repeated squaring. -/
def powTen (n : Nat) : Float :=
  powTenFrom (n + 1) n 1.0 10.0

/-- The nearest float to the mantissa divided by the power of ten. -/
def toFloat (d : Decimal) : Float :=
  Float.ofInt d.mantissa.toInt / powTen d.scale.toNat

end Decimal

end Sharding
