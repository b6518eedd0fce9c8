/-!
# Floats as they are stored

A `Double` is the pattern of 64 bits of a float.  There is one number for almost every pattern, but
many patterns of a NaN: it has a sign and a payload, which an operation does not look at.  What
looks at the bits themselves, such as a hash table or a group key, tells them apart.
-/

namespace Sharding

/-- A float as it is stored. -/
structure Double where
  bits : UInt64
deriving DecidableEq

namespace Double

/-- The number of a pattern.  All NaNs are one number. -/
def value (x : Double) : Float :=
  Float.ofBits x.bits

/-- The pattern of a number that an operation yields.  Which NaN an operation yields is left to the
machine; here it is the quiet one with neither a sign nor a payload. -/
def ofFloat (x : Float) : Double :=
  ⟨x.toBits⟩

end Double

end Sharding
