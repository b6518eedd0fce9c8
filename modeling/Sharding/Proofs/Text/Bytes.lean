import Mathlib.Tactic.Ring
import Sharding.Text.Bytes

/-!
# Reading bytes back

Nothing is lost by writing numbers and texts as bytes.

* `ofBigEndian_bigEndian`: the bytes of a number stand for that number, as long as it fits them.
* `bigEndian_append_inj`: numbers of one width are told apart also when more bytes follow.
* `counted_append_inj`: so are byte strings of any length that their length is written in front of.
* `utf8Bytes_inj`: texts with the same bytes are the same.
-/

namespace Sharding

/-! ## Numbers -/

/-- Reading the bytes of a number puts its digits behind what has been read before. -/
theorem foldl_bigEndian (width n acc : Nat) :
    (bigEndian width n).foldl (fun n b => n * 256 + b.toNat) acc =
      acc * 256 ^ width + n % 256 ^ width := by
  induction width generalizing acc with
  | zero =>
    simp [bigEndian, Nat.mod_one]
  | succ width ih =>
    have hbyte : (UInt8.ofNat (n / 256 ^ width)).toNat = n / 256 ^ width % 256 := by
      simp
    have hsplit : n % 256 ^ (width + 1) =
        n % 256 ^ width + 256 ^ width * (n / 256 ^ width % 256) := by
      rw [Nat.pow_succ]
      exact Nat.mod_mul
    show (bigEndian width n).foldl _ (acc * 256 + (UInt8.ofNat (n / 256 ^ width)).toNat) = _
    rw [ih, hbyte, hsplit, Nat.pow_succ]
    ring

/-- A number that fits its bytes is read back from them. -/
theorem ofBigEndian_bigEndian {width n : Nat} (h : n < 256 ^ width) :
    ofBigEndian (bigEndian width n) = n := by
  have hread := foldl_bigEndian width n 0
  rw [Nat.zero_mul, Nat.zero_add, Nat.mod_eq_of_lt h] at hread
  exact hread

section Appended

variable {xs ys : List UInt8}

/-- Numbers of one width are told apart whatever follows them. -/
theorem bigEndian_append_inj {width m n : Nat} (hm : m < 256 ^ width) (hn : n < 256 ^ width)
    (h : bigEndian width m ++ xs = bigEndian width n ++ ys) : m = n ∧ xs = ys := by
  obtain ⟨hbytes, hrest⟩ := List.append_inj h (by simp)
  have hread := congrArg ofBigEndian hbytes
  rw [ofBigEndian_bigEndian hm, ofBigEndian_bigEndian hn] at hread
  exact ⟨hread, hrest⟩

/-- Byte strings behind their lengths are told apart whatever follows them. -/
theorem counted_append_inj {width : Nat} {as bs : List UInt8} (ha : as.length < 256 ^ width)
    (hb : bs.length < 256 ^ width)
    (h : bigEndian width as.length ++ as ++ xs = bigEndian width bs.length ++ bs ++ ys) :
    as = bs ∧ xs = ys := by
  rw [List.append_assoc, List.append_assoc] at h
  obtain ⟨hlength, h⟩ := bigEndian_append_inj ha hb h
  exact List.append_inj h hlength

end Appended

/-! ## Texts -/

/-- Texts with the same bytes are the same. -/
theorem utf8Bytes_inj {s t : String} : utf8Bytes s = utf8Bytes t ↔ s = t := by
  constructor
  · intro h
    have hbytes : s.toList.utf8Encode = t.toList.utf8Encode :=
      congrArg List.toByteArray h
    rw [String.utf8Encode_toList, String.utf8Encode_toList] at hbytes
    exact String.toByteArray_inj.1 hbytes
  · rintro rfl
    rfl

end Sharding
