import Sharding.Datum.Basic
import Sharding.Text.Bytes

/-!
# Choosing a slot for a value

A sharded table has some number of data nodes, and an algorithm chooses one of them for each value
of its sharding column.  `Algorithm.slot` is that choice as a number below the count of nodes.

* `modulo` takes the remainder of an integer, which is never negative.
* `hash` takes the remainder of a hash of the value's text.

A value that is no integer is hashed under both.  The hash is the one of Fowler, Noll and Vo in its
variant 1a with 64 bits: each byte is combined by exclusive or, and then the hash is multiplied by
a prime.
-/

namespace Sharding

/-- One step of the hash. -/
def hashByte (hash : UInt64) (byte : UInt8) : UInt64 :=
  (hash ^^^ byte.toUInt64) * 0x100000001b3

/-- The hash of a list of bytes. -/
def hashBytes (bytes : List UInt8) : UInt64 :=
  bytes.foldl hashByte 0xcbf29ce484222325

/-- The hash of a text: that of its bytes in UTF-8. -/
def hashText (s : String) : UInt64 :=
  hashBytes (utf8Bytes s)

/-- How a sharded table chooses a node for a value. -/
inductive Algorithm where
  | modulo
  | hash
deriving DecidableEq

/-- The slot of a value among `n` slots. -/
def Algorithm.slot (a : Algorithm) (n : Nat) (value : Datum) : Nat :=
  match a, value.toInt64? with
  | modulo, some v => (v.toInt % (n : Int)).toNat
  | _, _ => (hashText value.display).toNat % n

theorem Algorithm.slot_lt (a : Algorithm) {n : Nat} (h : 0 < n) (value : Datum) :
    a.slot n value < n := by
  unfold Algorithm.slot
  split
  · have h1 := Int.emod_nonneg (Int64.toInt ‹_›) (b := (n : Int)) (by omega)
    have h2 := Int.emod_lt_of_pos (Int64.toInt ‹_›) (b := (n : Int)) (by omega)
    omega
  · exact Nat.mod_lt _ h

end Sharding
