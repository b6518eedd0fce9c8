import Sharding.Datum.Basic

/-!
# Adding scalar values

Counts and sums of several shards are added with `Datum.add?`.  NULL is neutral.  Integers add up
to an integer of 64 bits, decimals at the larger scale, a decimal and an integer at the decimal's
scale, and a float with an integer or a float as floats.  There is no sum for other kinds, nor for
one that does not fit.
-/

namespace Sharding

/-- The sum of two integers of 64 bits, if it is one. -/
def addInt64? (a b : Int) : Option Int64 :=
  if -9223372036854775808 ≤ a + b ∧ a + b < 9223372036854775808 then some (Int64.ofInt (a + b))
  else none

namespace Datum

/-- The sum of two datums, where they have one. -/
def add? : Datum → Datum → Option Datum
  | null, b => some b
  | a, null => some a
  | int32 a, int32 b => some (int64 (a.toInt64 + b.toInt64))
  | int64 a, int64 b => (addInt64? a.toInt b.toInt).map int64
  | int64 a, int32 b => (addInt64? a.toInt b.toInt).map int64
  | int32 a, int64 b => (addInt64? b.toInt a.toInt).map int64
  | float64 a, float64 b => some (float64 (.ofFloat (a.value + b.value)))
  | float64 a, int64 b => some (float64 (.ofFloat (a.value + Float.ofInt b.toInt)))
  | int64 b, float64 a => some (float64 (.ofFloat (a.value + Float.ofInt b.toInt)))
  | float64 a, int32 b => some (float64 (.ofFloat (a.value + Float.ofInt b.toInt)))
  | int32 b, float64 a => some (float64 (.ofFloat (a.value + Float.ofInt b.toInt)))
  | decimal a, decimal b => (a.add? b).map decimal
  | decimal a, b => (b.toInt64?).bind fun n => (a.addInt? n.toInt).map decimal
  | a, decimal b => (a.toInt64?).bind fun n => (b.addInt? n.toInt).map decimal
  | _, _ => none

end Datum

end Sharding
