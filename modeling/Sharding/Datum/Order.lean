import Sharding.Datum.Basic

/-!
# Comparing scalar values

`Datum.compare?` is the comparison of two datums, and has no answer where the two cannot be
compared: NULL with anything, a NaN with anything, and values of unlike kinds.  Numbers of all
kinds compare with each other:

* two integers as integers, whatever their widths;
* two decimals, or a decimal and an integer, at a common scale;
* every other pair of numbers as floats.

`Datum.equals` is equality as a query sees it: it answers false for NULL, even against NULL.
`Datum.order` takes incomparable values for equal, and `Datum.fingerprint` is what a hash table
may look at.
-/

namespace Sharding

/-- The order of two floats; a NaN has none. -/
def compareFloats (x y : Float) : Option Ordering :=
  if x < y then some .lt
  else if x == y then some .eq
  else if y < x then some .gt
  else none

namespace Datum

/-- The order of two numbers of which not both are decimals. -/
def compareNumbers (a b : Datum) : Option Ordering :=
  match a.toInt64?, b.toInt64? with
  | some x, some y => some (compare x.toInt y.toInt)
  | _, _ =>
    match a.toFloat?, b.toFloat? with
    | some x, some y => compareFloats x y
    | _, _ => none

/-- The order of two datums, where they have one. -/
def compare? : Datum → Datum → Option Ordering
  | null, _ => none
  | _, null => none
  | boolean a, boolean b => some (compare a b)
  | text a, text b => some (compare a b)
  | timestamp a, timestamp b => some (compare a.toInt b.toInt)
  | date a, date b => some (compare a.toInt b.toInt)
  | bytea a, bytea b => some (compare a b)
  | decimal a, decimal b => some (a.compare b)
  | decimal a, b =>
    match b.toInt64? with
    | some n => some (a.compareInt n.toInt)
    | none => compareNumbers (decimal a) b
  | a, decimal b =>
    match a.toInt64? with
    | some n => some (b.compareInt n.toInt).swap
    | none => compareNumbers a (decimal b)
  | a, b => compareNumbers a b

/-- Equality as a query sees it.  NULL equals nothing. -/
def equals (a b : Datum) : Bool :=
  a.compare? b == some .eq

/-- The order in which incomparable datums count as equal. -/
def order (a b : Datum) : Ordering :=
  (a.compare? b).getD .eq

end Datum

/-- Two rows are equal when they have the same length and equal values. -/
def Row.equals : Row → Row → Bool
  | [], [] => true
  | a :: as, b :: bs => a.equals b && Row.equals as bs
  | _, _ => false

/-- What a datum shows to a hash table. -/
inductive Fingerprint where
  | null
  | boolean (b : Bool)
  | integer (n : Int64)
  | float (bits : UInt64)
  | decimal (d : Decimal)
  | text (s : String)
  | timestamp (micros : Int64)
  | date (days : Int32)
  | bytea (bytes : List UInt8)
deriving DecidableEq

/-- Integers of both widths look alike, and decimals are trimmed. -/
def Datum.fingerprint : Datum → Fingerprint
  | .null => .null
  | .boolean b => .boolean b
  | .int32 n => .integer n.toInt64
  | .int64 n => .integer n
  | .float64 x => .float x.bits
  | .decimal d => .decimal d.trim
  | .text s => .text s
  | .timestamp micros => .timestamp micros
  | .date days => .date days
  | .bytea bytes => .bytea bytes

end Sharding
