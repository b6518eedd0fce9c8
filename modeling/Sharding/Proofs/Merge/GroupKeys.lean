import Sharding.Merge.GroupKey
import Sharding.Proofs.Datum.Equality
import Sharding.Proofs.Datum.Fingerprint
import Sharding.Proofs.Text.Bytes

/-!
# Group keys tell groups apart

The part of a group key that stands for one value is made of what a hash table sees of the value: a
byte for its kind, and then bytes whose number is fixed for the kind or written in front of them.
So the end of a part can be told from its beginning, and two keys are the same only if all their
parts are (`Fingerprint.valueBytes_append_inj`, `groupKey_eq_iff`).

Values may be equal without being of one group, since equality looks through the kinds of numbers
and a group key does not.  `Datum.SameKind` says which equal values agree (`equal_values_agree`).
-/

namespace Sharding

/-! ## The parts of a key -/

namespace Fingerprint

/-- The byte for the kind of a value. -/
def kindByte : Fingerprint → UInt8
  | null => 0
  | boolean _ => 1
  | integer _ => 2
  | float _ => 3
  | decimal _ => 4
  | text _ => 5
  | timestamp _ => 6
  | date _ => 7
  | bytea _ => 8

/-- The bytes of a value behind that of its kind. -/
def valueBytes : Fingerprint → List UInt8
  | null => []
  | boolean b => [if b then 1 else 0]
  | integer n => bigEndian 8 n.toUInt64.toNat
  | float bits => bigEndian 8 bits.toNat
  | decimal d => d.scale :: bigEndian 16 (d.mantissa.toInt % twoTo 128).toNat
  | text s => bigEndian 4 (utf8Bytes s).length ++ utf8Bytes s
  | timestamp n => bigEndian 8 n.toUInt64.toNat
  | date n => bigEndian 4 n.toUInt32.toNat
  | bytea bytes => bigEndian 4 bytes.length ++ bytes

/-- The length of a text or a byte string can be written with 32 bits. -/
def Short : Fingerprint → Prop
  | text s => (utf8Bytes s).length < 2 ^ 32
  | bytea bytes => bytes.length < 2 ^ 32
  | _ => True

variable {f g : Fingerprint} {xs ys : List UInt8}

theorem int64_append_inj {m n : Int64}
    (h : bigEndian 8 m.toUInt64.toNat ++ xs = bigEndian 8 n.toUInt64.toNat ++ ys) :
    m = n ∧ xs = ys := by
  obtain ⟨hnat, hrest⟩ := bigEndian_append_inj m.toUInt64.toNat_lt n.toUInt64.toNat_lt h
  cases m
  cases n
  exact ⟨congrArg Int64.ofUInt64 (UInt64.toNat_inj.1 hnat), hrest⟩

theorem int32_append_inj {m n : Int32}
    (h : bigEndian 4 m.toUInt32.toNat ++ xs = bigEndian 4 n.toUInt32.toNat ++ ys) :
    m = n ∧ xs = ys := by
  obtain ⟨hnat, hrest⟩ := bigEndian_append_inj m.toUInt32.toNat_lt n.toUInt32.toNat_lt h
  cases m
  cases n
  exact ⟨congrArg Int32.ofUInt32 (UInt32.toNat_inj.1 hnat), hrest⟩

/-- A mantissa is read off its low 128 bits. -/
theorem mantissa_append_inj {m n : Int128}
    (h : bigEndian 16 (m.toInt % twoTo 128).toNat ++ xs =
      bigEndian 16 (n.toInt % twoTo 128).toNat ++ ys) : m = n ∧ xs = ys := by
  have hsize : (twoTo 128 : Int) = 340282366920938463463374607431768211456 := rfl
  have hfits : ∀ k : Int, (k % twoTo 128).toNat < 256 ^ 16 := by
    intro k
    rw [hsize]
    omega
  obtain ⟨hnat, hrest⟩ := bigEndian_append_inj (hfits m.toInt) (hfits n.toInt) h
  refine ⟨Int128.ext ?_, hrest⟩
  have hm := m.lower
  have hm' := m.upper
  have hn := n.lower
  have hn' := n.upper
  rw [hsize] at hnat
  omega

/-- The end of a value's bytes can be told from its kind and its beginning. -/
theorem valueBytes_append_inj (hkind : f.kindByte = g.kindByte) (hf : f.Short) (hg : g.Short)
    (h : f.valueBytes ++ xs = g.valueBytes ++ ys) : f = g ∧ xs = ys := by
  cases f with
  | null =>
    cases g with
    | null => exact ⟨rfl, h⟩
    | _ => simp [kindByte] at hkind
  | boolean b =>
    cases g with
    | boolean c =>
      obtain ⟨hbyte, hrest⟩ := List.cons.inj h
      refine ⟨?_, hrest⟩
      cases b <;> cases c <;> first | rfl | exact absurd hbyte (by decide)
    | _ => simp [kindByte] at hkind
  | integer n =>
    cases g with
    | integer m =>
      obtain ⟨rfl, hrest⟩ := int64_append_inj h
      exact ⟨rfl, hrest⟩
    | _ => simp [kindByte] at hkind
  | float bits =>
    cases g with
    | float bits' =>
      obtain ⟨hnat, hrest⟩ := bigEndian_append_inj bits.toNat_lt bits'.toNat_lt h
      exact ⟨congrArg float (UInt64.toNat_inj.1 hnat), hrest⟩
    | _ => simp [kindByte] at hkind
  | decimal d =>
    cases g with
    | decimal e =>
      obtain ⟨hscale, h⟩ := List.cons.inj h
      obtain ⟨hmantissa, hrest⟩ := mantissa_append_inj h
      cases d
      cases e
      exact ⟨congrArg decimal (congr (congrArg Decimal.mk hmantissa) hscale), hrest⟩
    | _ => simp [kindByte] at hkind
  | text s =>
    cases g with
    | text t =>
      obtain ⟨hbytes, hrest⟩ := counted_append_inj hf hg h
      exact ⟨congrArg text (utf8Bytes_inj.1 hbytes), hrest⟩
    | _ => simp [kindByte] at hkind
  | timestamp n =>
    cases g with
    | timestamp m =>
      obtain ⟨rfl, hrest⟩ := int64_append_inj h
      exact ⟨rfl, hrest⟩
    | _ => simp [kindByte] at hkind
  | date n =>
    cases g with
    | date m =>
      obtain ⟨rfl, hrest⟩ := int32_append_inj h
      exact ⟨rfl, hrest⟩
    | _ => simp [kindByte] at hkind
  | bytea bytes =>
    cases g with
    | bytea bytes' =>
      obtain ⟨rfl, hrest⟩ := counted_append_inj hf hg h
      exact ⟨rfl, hrest⟩
    | _ => simp [kindByte] at hkind

end Fingerprint

namespace Datum

/-- The length of a text or a byte string can be written with 32 bits. -/
def Short : Datum → Prop
  | text s => (utf8Bytes s).length < 2 ^ 32
  | bytea bytes => bytes.length < 2 ^ 32
  | _ => True

instance : (d : Datum) → Decidable d.Short
  | text s => inferInstanceAs (Decidable ((utf8Bytes s).length < 2 ^ 32))
  | bytea bytes => inferInstanceAs (Decidable (bytes.length < 2 ^ 32))
  | null | boolean _ | int32 _ | int64 _ | float64 _ | decimal _ | timestamp _ | date _ =>
    .isTrue trivial

theorem Short.fingerprint {d : Datum} (h : d.Short) : d.fingerprint.Short := by
  cases d <;> exact h

theorem groupBytes_eq (d : Datum) :
    d.groupBytes = d.fingerprint.kindByte :: d.fingerprint.valueBytes := by
  cases d <;> rfl

/-- The parts of a key for two values are the same exactly if they stand for one group, and then the
rest of the key begins at the same place. -/
theorem groupBytes_append_iff {a b : Datum} {xs ys : List UInt8} (ha : a.Short) (hb : b.Short) :
    a.groupBytes ++ xs = b.groupBytes ++ ys ↔ a.SameGroup b ∧ xs = ys := by
  rw [groupBytes_eq, groupBytes_eq, ← fingerprint_eq_iff]
  constructor
  · intro h
    obtain ⟨hkind, h⟩ := List.cons.inj h
    exact Fingerprint.valueBytes_append_inj hkind ha.fingerprint hb.fingerprint h
  · rintro ⟨hsame, rfl⟩
    rw [hsame]

theorem groupKey_singleton (d : Datum) : groupKey [0] [d] = d.groupBytes :=
  List.append_nil _

/-! ## Equal values -/

/-- Two values of one kind: of one form, or decimals that stay in 128 bits when they are
compared. -/
inductive SameKind : Datum → Datum → Prop
  | form {a b : Datum} : a.SameForm b → SameKind a b
  | decimals {d e : Decimal} : (decimal d).Aligned (decimal e) → SameKind (.decimal d) (.decimal e)

variable {a b : Datum}

theorem sameGroup_refl (d : Datum) : d.SameGroup d :=
  sameGroup_of_fingerprint rfl

/-- Bringing decimals of one number to one scale makes neither longer than the other. -/
theorem aligned_of_value {d e : Decimal} (h : d.value = e.value) :
    (decimal d).Aligned (decimal e) := by
  have hmantissas := Decimal.mantissas_of_value h
  have hd : Int128.Fits d.mantissa.toInt := ⟨d.mantissa.lower, d.mantissa.upper⟩
  have he : Int128.Fits e.mantissa.toInt := ⟨e.mantissa.lower, e.mantissa.upper⟩
  intro p hp q hq
  cases hp
  cases hq
  rcases Nat.le_total d.scale.toNat e.scale.toNat with hle | hle
  · rw [mul_tenTo_of_le e.mantissa.toInt hle] at hmantissas ⊢
    exact ⟨hmantissas ▸ he, he⟩
  · rw [mul_tenTo_of_le d.mantissa.toInt hle] at hmantissas ⊢
    exact ⟨hd, hmantissas ▸ hd⟩

/-- Equal values are in one group exactly if they are of one kind. -/
theorem sameGroup_iff_of_equals (h : a.equals b = true) : a.SameGroup b ↔ a.SameKind b := by
  constructor
  · intro hgroup
    cases hgroup with
    | nulls => exact .form (.refl _)
    | integers ha hb =>
      exact .form (.integers (Option.isSome_of_mem ha) (Option.isSome_of_mem hb))
    | decimals hvalue => exact .decimals (aligned_of_value hvalue)
    | @floats x y hbits =>
      obtain rfl : x = y := congrArg Double.mk hbits
      exact .form (.refl _)
    | others => exact .form (.refl _)
  · intro hkind
    cases hkind with
    | form hform =>
      rcases hform.eq_or_ints h with rfl | ⟨n, ha, hb⟩
      · exact sameGroup_refl a
      · exact .integers ha hb
    | @decimals d e haligned =>
      rw [equals_iff, compare?_numbers rfl rfl haligned] at h
      exact .decimals (compare_eq_iff_eq.1 (Option.some.inj h))

/-- A number needs no length in front of its bytes. -/
theorem short_of_number {d : Datum} (h : d.toFloat? ≠ none) : d.Short := by
  cases d with
  | text s => exact absurd rfl h
  | bytea bytes => exact absurd rfl h
  | _ => trivial

theorem equals_comm (a b : Datum) : a.equals b = b.equals a := by
  rw [Bool.eq_iff_iff, equals_iff, equals_iff, compare?_swap a b]
  cases a.compare? b with
  | none => simp
  | some o => cases o <;> simp

/-- Of equal values no text has to be short: equal texts are the same. -/
theorem groupBytes_eq_iff_of_equals (h : a.equals b = true) :
    a.groupBytes = b.groupBytes ↔ a.SameGroup b := by
  by_cases ha : a.toFloat? = none
  · obtain rfl := eq_of_not_number h ha
    exact iff_of_true rfl (sameGroup_refl a)
  · by_cases hb : b.toFloat? = none
    · rw [equals_comm] at h
      obtain rfl := eq_of_not_number h hb
      exact iff_of_true rfl (sameGroup_refl b)
    · have happend := @groupBytes_append_iff a b [] [] (short_of_number ha) (short_of_number hb)
      simpa using happend

end Datum

/-! ## Whole keys -/

/-- The texts and byte strings of a row are short. -/
def Row.Short (row : Row) : Prop :=
  ∀ d ∈ row, d.Short

instance (row : Row) : Decidable row.Short :=
  inferInstanceAs (Decidable (∀ d ∈ row, d.Short))

theorem Row.Short.column {row : Row} (h : row.Short) (i : Nat) : (row.column i).Short := by
  rw [Row.column]
  cases hi : row[i]? with
  | none => trivial
  | some d => exact h d (List.mem_of_getElem? hi)

/-- Two rows have one group key exactly if they have values of one group in every group column. -/
theorem groupKey_eq_iff (indices : List Nat) {a b : Row} (ha : a.Short) (hb : b.Short) :
    groupKey indices a = groupKey indices b ↔
      ∀ i ∈ indices, (a.column i).SameGroup (b.column i) := by
  induction indices with
  | nil => simp [groupKey]
  | cons i indices ih =>
    have hstep := @Datum.groupBytes_append_iff _ _ (groupKey indices a) (groupKey indices b)
      (ha.column i) (hb.column i)
    calc groupKey (i :: indices) a = groupKey (i :: indices) b
        ↔ (a.column i).SameGroup (b.column i) ∧ groupKey indices a = groupKey indices b := hstep
      _ ↔ ∀ j ∈ i :: indices, (a.column j).SameGroup (b.column j) := by
        rw [ih, List.forall_mem_cons]

/-- Widths and scales do not split a group.  Texts that are cut in another place do not collide, and
neither do two NaNs, of which one has a sign.  The last column is missing in all rows. -/
theorem groupKey_eq_iff_lines :
    Row.Short [.int32 5, .decimal ⟨.wrap (-150), 2⟩, .text "a", .text "bc",
        .float64 ⟨0x7ff8000000000000⟩] ∧
      Row.Short [.int64 5, .decimal ⟨.wrap (-15), 1⟩, .text "ab", .text "c",
        .float64 ⟨0xfff8000000000000⟩] ∧
      groupKey [0, 1, 7] [.int32 5, .decimal ⟨.wrap (-150), 2⟩, .text "a", .text "bc",
          .float64 ⟨0x7ff8000000000000⟩] =
        groupKey [0, 1, 7] [.int64 5, .decimal ⟨.wrap (-15), 1⟩, .text "ab", .text "c",
          .float64 ⟨0xfff8000000000000⟩] ∧
      groupKey [2, 3] [.int32 5, .decimal ⟨.wrap (-150), 2⟩, .text "a", .text "bc",
          .float64 ⟨0x7ff8000000000000⟩] ≠
        groupKey [2, 3] [.int64 5, .decimal ⟨.wrap (-15), 1⟩, .text "ab", .text "c",
          .float64 ⟨0xfff8000000000000⟩] ∧
      groupKey [4] [.int32 5, .decimal ⟨.wrap (-150), 2⟩, .text "a", .text "bc",
          .float64 ⟨0x7ff8000000000000⟩] ≠
        groupKey [4] [.int64 5, .decimal ⟨.wrap (-15), 1⟩, .text "ab", .text "c",
          .float64 ⟨0xfff8000000000000⟩] := by
  have hleft : Row.Short [.int32 5, .decimal ⟨.wrap (-150), 2⟩, .text "a", .text "bc",
      .float64 ⟨0x7ff8000000000000⟩] := by decide
  have hright : Row.Short [.int64 5, .decimal ⟨.wrap (-15), 1⟩, .text "ab", .text "c",
      .float64 ⟨0xfff8000000000000⟩] := by decide
  refine ⟨hleft, hright, (groupKey_eq_iff _ hleft hright).2 ?_, fun hkey => ?_, fun hkey => ?_⟩
  · have hvalue : (⟨.wrap (-150), 2⟩ : Decimal).value = (⟨.wrap (-15), 1⟩ : Decimal).value :=
      Decimal.trim_eq_iff.1 (by decide)
    intro i hi
    rcases List.mem_cons.1 hi with rfl | hi
    · exact .integers rfl rfl
    · rcases List.mem_cons.1 hi with rfl | hi
      · exact .decimals hvalue
      · cases List.mem_singleton.1 hi
        exact .nulls
  · have htext : (Datum.text "a").SameGroup (.text "ab") :=
      (groupKey_eq_iff _ hleft hright).1 hkey 2 (by decide)
    have hfingerprint := htext.fingerprint_eq
    exact absurd hfingerprint (by decide)
  · have hnan : (Datum.float64 ⟨0x7ff8000000000000⟩).SameGroup (.float64 ⟨0xfff8000000000000⟩) :=
      (groupKey_eq_iff _ hleft hright).1 hkey 4 (by decide)
    have hfingerprint := hnan.fingerprint_eq
    exact absurd hfingerprint (by decide)

/-- Equal values look the same to a hash table, and have one group key, exactly if they are of one
kind.  An integer, a decimal and a float of one number are not, and neither are the two zeros. -/
theorem equal_values_agree {a b : Datum} (h : a.equals b = true) :
    (a.fingerprint = b.fingerprint ↔ a.SameKind b) ∧
      (groupKey [0] [a] = groupKey [0] [b] ↔ a.SameKind b) := by
  have hkind := Datum.sameGroup_iff_of_equals h
  constructor
  · rw [Datum.fingerprint_eq_iff]
    exact hkind
  · rw [Datum.groupKey_singleton, Datum.groupKey_singleton, Datum.groupBytes_eq_iff_of_equals h]
    exact hkind

/-- The decimals 1.5 and 1.50 are of one kind. -/
theorem equal_values_agree_decimals :
    (Datum.decimal ⟨.wrap 15, 1⟩).equals (.decimal ⟨.wrap 150, 2⟩) = true ∧
      (Datum.decimal ⟨.wrap 15, 1⟩).SameKind (.decimal ⟨.wrap 150, 2⟩) ∧
      (Datum.decimal ⟨.wrap 15, 1⟩).fingerprint = (Datum.decimal ⟨.wrap 150, 2⟩).fingerprint ∧
      groupKey [0] [.decimal ⟨.wrap 15, 1⟩] = groupKey [0] [.decimal ⟨.wrap 150, 2⟩] := by
  have hequals : (Datum.decimal ⟨.wrap 15, 1⟩).equals (.decimal ⟨.wrap 150, 2⟩) = true := by decide
  have hkind : (Datum.decimal ⟨.wrap 15, 1⟩).SameKind (.decimal ⟨.wrap 150, 2⟩) :=
    .decimals (by decide)
  obtain ⟨hfingerprint, hkey⟩ := equal_values_agree hequals
  exact ⟨hequals, hkind, hfingerprint.2 hkind, hkey.2 hkind⟩

/-- The integer 1 and the decimal 1.0 are equal, and so are the two zeros, but they come into two
groups. -/
theorem equal_values_in_two_groups :
    (Datum.int64 1).equals (.decimal ⟨.wrap 10, 1⟩) = true ∧
      (Datum.int64 1).fingerprint ≠ (Datum.decimal ⟨.wrap 10, 1⟩).fingerprint ∧
      groupKey [0] [.int64 1] ≠ groupKey [0] [.decimal ⟨.wrap 10, 1⟩] ∧
      (Datum.float64 (.ofFloat 0)).equals (.float64 (.ofFloat (-0))) = true ∧
      (Datum.float64 (.ofFloat 0)).fingerprint ≠ (Datum.float64 (.ofFloat (-0))).fingerprint ∧
      groupKey [0] [.float64 (.ofFloat 0)] ≠ groupKey [0] [.float64 (.ofFloat (-0))] :=
  ⟨by decide, by decide, by decide, by decide, by decide, by decide⟩

end Sharding
