import Mathlib
import Sharding.Number.Double

/-!
# Patterns and the numbers they stand for

Every number has a pattern (`Double.value_ofFloat`), and no more than one, unless it is the NaN
(`Double.eq_of_value`).

What the library has on packing floats is in none of the files that can be imported one by one, so
this module imports all of them.  The other modules on floats get it from here.
-/

namespace Sharding

namespace Double

open Float.Model UnpackedFloat

@[simp]
theorem value_ofFloat (x : Float) : (ofFloat x).value = x :=
  Float.ofBits_toBits x

/-- Packing the number of a pattern gives the pattern again, unless it is a NaN: all NaNs are packed
into one pattern. -/
theorem ofFloat_value {x : Double} (hnan : x.value ≠ Float.nan) : ofFloat x.value = x := by
  have hpack : (Float.ofBits x.bits).toBits.toBitVec =
      if @isNaNBits Format.binary64 x.bits.toBitVec then packedNaN Format.binary64
      else x.bits.toBitVec := pack_unpack _
  split at hpack
  · refine absurd ?_ hnan
    rw [← Float.toBits_inj, value, ← UInt64.toBitVec_inj, hpack]
    rfl
  · exact congrArg Double.mk (UInt64.toBitVec_inj.1 hpack)

/-- Two patterns of one number are the same pattern, unless they are NaNs. -/
theorem eq_of_value {x y : Double} (hnan : x.value ≠ Float.nan) (h : x.value = y.value) :
    x = y := by
  rw [← ofFloat_value hnan, h, ofFloat_value (h ▸ hnan)]

end Double

end Sharding
