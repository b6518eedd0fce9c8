import Sharding.Number.Decimal

/-!
# The shortest decimal that reads back

A float is written with the fewest significant digits that read back as the same float, and with
those of them that are nearest to its value; of two equally near ones the larger is written.
The text is positional: no exponent, and no point after a whole number.

The reals that round to a float form an interval around its value.  `Interval` holds the value and
the ends of that interval as multiples of one power of two, so every comparison with a decimal
`d * 10 ^ e` is one of natural numbers.  A grid point in the interval exists only if one of the two
grid points next to the value lies in it, so `Interval.onGrid` looks at these two.
-/

namespace Sharding

/-- A positive value and the reals that round to it.  The value is `centre * 2 ^ twos`, and the
interval reaches from `low * 2 ^ twos` to `high * 2 ^ twos`; its ends belong to it when `closed`
is set. -/
structure Interval where
  low : Nat
  centre : Nat
  high : Nat
  twos : Int
  closed : Bool

namespace Interval

/-- The interval of the float with the significand `m` and the exponent field `field`.  Below a
power of two the next float is only half as far away as above it. -/
def ofParts (m field : Nat) : Interval :=
  let q : Int := (max field 1 : Nat) - 1075
  { low := if m = twoTo 52 ∧ 1 < field then 4 * m - 1 else 4 * m - 2
    centre := 4 * m
    high := 4 * m + 2
    twos := q - 2
    closed := m % 2 = 0 }

/-- What one unit of the decimal grid `10 ^ e` and one unit of the interval are worth in a common
unit. -/
def units (i : Interval) (e : Int) : Nat × Nat :=
  (tenTo e.toNat * twoTo (-i.twos).toNat, twoTo i.twos.toNat * tenTo (-e).toNat)

/-- Whether `a` lies below `b`, or at `b` when ends count. -/
def within (i : Interval) (a b : Nat) : Bool :=
  if i.closed then a ≤ b else a < b

/-- The multiple of `10 ^ e` in the interval that is nearest to the value. -/
def onGrid (i : Interval) (e : Int) : Option Nat :=
  let (grid, unit) := i.units e
  let value := i.centre * unit
  let d := value / grid
  let below := d ≠ 0 ∧ i.within (i.low * unit) (d * grid)
  let above := i.within ((d + 1) * grid) (i.high * unit)
  if below ∧ above then
    if value - d * grid < (d + 1) * grid - value then some d else some (d + 1)
  else if below then some d
  else if above then some (d + 1)
  else none

/-- How many times `n` can be multiplied by ten and stay below `d`. -/
def zerosAfterPoint : Nat → Nat → Nat → Nat
  | 0, _, _ => 0
  | steps + 1, n, d => if d ≤ n * 10 then 0 else zerosAfterPoint steps (n * 10) d + 1

/-- The `k` for which the value lies between `10 ^ (k - 1)` and `10 ^ k`. -/
def magnitude (i : Interval) : Int :=
  let (den, unit) := i.units 0
  let num := i.centre * unit
  if den ≤ num then (decimalDigits (num / den)).length
  else -(zerosAfterPoint 400 num den : Nat)

/-- The shortest decimal of the interval: the first count of digits whose grid has a point in it.
Seventeen digits always suffice. -/
def shortest (i : Interval) : Nat × Int :=
  let k := i.magnitude
  let found := (List.range 17).findSome? fun n =>
    let e := k - (n + 1 : Nat)
    (i.onGrid e).map (·, e)
  found.getD (0, 0)

end Interval

/-- The digits `ds` with the point `whole` places after the first digit. -/
def placePoint (ds : List Char) (whole : Int) : List Char :=
  if whole ≤ 0 then '0' :: '.' :: List.replicate (-whole).toNat '0' ++ ds
  else if ds.length ≤ whole.toNat then ds ++ List.replicate (whole.toNat - ds.length) '0'
  else ds.take whole.toNat ++ '.' :: ds.drop whole.toNat

/-- The digits without the zeros at their end. -/
def withoutTrailingZeros (ds : List Char) : List Char :=
  (ds.reverse.dropWhile (· == '0')).reverse

/-- The text of a positive finite float given by its significand and exponent field. -/
def positiveText (m field : Nat) : List Char :=
  let (d, e) := (Interval.ofParts m field).shortest
  let ds := decimalDigits d
  placePoint (withoutTrailingZeros ds) (ds.length + e)

/-- The text of a float. -/
def floatText (x : Float) : String :=
  let bits := x.toBits.toNat
  let sign := if bits / twoTo 63 = 1 then "-" else ""
  let field := bits / twoTo 52 % twoTo 11
  let fraction := bits % twoTo 52
  if field = twoTo 11 - 1 then
    if fraction = 0 then sign ++ "inf" else "NaN"
  else if field = 0 ∧ fraction = 0 then sign ++ "0"
  else sign ++ String.ofList
    (positiveText (if field = 0 then fraction else twoTo 52 + fraction) field)

end Sharding
