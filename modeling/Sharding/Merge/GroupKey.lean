import Sharding.Merge.Order
import Sharding.Text.Bytes

/-!
# Group keys

Rows belong to one group when their group keys are the same bytes.  A key is made of one part for
each group column: a byte for the kind of the value, and its bytes.  Integers of both widths have
one form, and decimals are trimmed, so values that differ in their representation alone fall into
one group.  Texts and byte strings are preceded by their length in 32 bits.
-/

namespace Sharding

/-- The part of a group key that stands for one value. -/
def Datum.groupBytes : Datum → List UInt8
  | .null => [0]
  | .boolean b => [1, if b then 1 else 0]
  | .int32 n => 2 :: bigEndian 8 n.toInt64.toUInt64.toNat
  | .int64 n => 2 :: bigEndian 8 n.toUInt64.toNat
  | .float64 x => 3 :: bigEndian 8 x.bits.toNat
  | .decimal d =>
    let t := d.trim
    4 :: t.scale :: bigEndian 16 (t.mantissa.toInt % twoTo 128).toNat
  | .text s =>
    let bytes := utf8Bytes s
    5 :: bigEndian 4 bytes.length ++ bytes
  | .timestamp n => 6 :: bigEndian 8 n.toUInt64.toNat
  | .date n => 7 :: bigEndian 4 n.toUInt32.toNat
  | .bytea bytes => 8 :: bigEndian 4 bytes.length ++ bytes

/-- The group key of a row over some of its columns. -/
def groupKey (indices : List Nat) (row : Row) : List UInt8 :=
  indices.flatMap fun i => (row.column i).groupBytes

end Sharding
