import Sharding.Datum.Order
import Sharding.Proofs.Datum.Trimmed

/-!
# What a hash table sees

`Datum.SameGroup` says which values are one value to a query that groups its rows: the form of a
number, the width of an integer or the scale of a decimal, does not matter, but its kind does.
Exactly these values have one fingerprint (`Datum.fingerprint_eq_iff`).
-/

namespace Sharding

namespace Datum

/-- Two values of one group. -/
inductive SameGroup : Datum → Datum → Prop
  | nulls : SameGroup .null .null
  /-- Integers of one value, whatever their widths. -/
  | integers {a b : Datum} {n : Int64} : a.toInt64? = some n → b.toInt64? = some n → SameGroup a b
  /-- Decimals of one number, whatever their scales. -/
  | decimals {d e : Decimal} : d.value = e.value → SameGroup (.decimal d) (.decimal e)
  /-- Floats of the same bits: there are two zeros and many NaNs. -/
  | floats {x y : Double} : x.bits = y.bits → SameGroup (.float64 x) (.float64 y)
  /-- Values that are not numeric: each with itself. -/
  | others {d : Datum} : d.toFloat? = none → SameGroup d d

variable {a b : Datum}

theorem fingerprint_eq_integer_iff {d : Datum} {n : Int64} :
    d.fingerprint = .integer n ↔ d.toInt64? = some n := by
  cases d <;> simp [fingerprint, toInt64?]

theorem SameGroup.fingerprint_eq (h : a.SameGroup b) : a.fingerprint = b.fingerprint := by
  cases h with
  | nulls => rfl
  | integers ha hb =>
    rw [fingerprint_eq_integer_iff.2 ha, fingerprint_eq_integer_iff.2 hb]
  | decimals hvalue =>
    exact congrArg Fingerprint.decimal (Decimal.trim_eq_iff.2 hvalue)
  | floats hbits =>
    exact congrArg Fingerprint.float hbits
  | others => rfl

theorem sameGroup_of_fingerprint (h : a.fingerprint = b.fingerprint) : a.SameGroup b := by
  cases a with
  | int32 m =>
    exact .integers rfl (fingerprint_eq_integer_iff.1 h.symm)
  | int64 m =>
    exact .integers rfl (fingerprint_eq_integer_iff.1 h.symm)
  | decimal d =>
    cases b with
    | decimal e => exact .decimals (Decimal.trim_eq_iff.1 (Fingerprint.decimal.inj h))
    | _ => cases h
  | float64 x =>
    cases b with
    | float64 y => exact .floats (Fingerprint.float.inj h)
    | _ => cases h
  | _ =>
    -- no other kind changes its values for the hash table
    cases b <;> cases h
    exact .others rfl

/-- Values of one group, and no others, look the same to a hash table. -/
theorem fingerprint_eq_iff : a.fingerprint = b.fingerprint ↔ a.SameGroup b :=
  ⟨sameGroup_of_fingerprint, SameGroup.fingerprint_eq⟩

end Datum

end Sharding
