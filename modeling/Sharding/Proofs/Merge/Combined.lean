import Mathlib.Algebra.BigOperators.Group.Multiset.Basic
import Sharding.Merge.Groups
import Sharding.Proofs.Datum.Number

/-!
# What folding a column gives

Folding a column of NULL, integers and decimals gives a datum that depends on the values alone and
not on their order.  `ColumnFold.Holds` says what it is, for the multiset of the values:

* added up (`Sums`), it stands for the sum of the numbers, at the largest scale of the decimals.
  It is an integer of 32 bits only when it is the one number that there is;
* of the greatest or the least values (`Extreme`), it stands for the greatest or the least number.
  Several values may stand for that number, and the first of them is taken.

A step of the fold adds one value (`ColumnFold.Holds.fold`).  What two orders give is the same sum,
and extremes that stand for the same number (`ColumnFold.Holds.agree`).
-/

namespace Sharding

variable {m : Multiset Datum} {acc value out out' : Datum}

/-- NULL, an integer or a decimal. -/
def Datum.Countable : Datum → Prop
  | null | int32 _ | int64 _ | decimal _ => True
  | _ => False

instance : DecidablePred Datum.Countable
  | .null | .int32 _ | .int64 _ | .decimal _ => .isTrue trivial
  | .boolean _ | .float64 _ | .text _ | .timestamp _ | .date _ | .bytea _ => .isFalse id

theorem Datum.Countable.eq_null_or_number {d : Datum} (h : d.Countable) :
    d = .null ∨ ∃ x, d.number? = some x := by
  cases d with
  | null => exact .inl rfl
  | int32 n => exact .inr ⟨_, rfl⟩
  | int64 n => exact .inr ⟨_, rfl⟩
  | decimal e => exact .inr ⟨_, rfl⟩
  | _ => exact h.elim

/-- Both are NULL, or stand for one number. -/
def Datum.SameNumber (a b : Datum) : Prop :=
  (a = null ∧ b = null) ∨ ∃ x, a.number? = some x ∧ b.number? = some x

/-- The datums other than NULL. -/
def present (m : Multiset Datum) : Multiset Datum :=
  m.filter (· ≠ .null)

@[simp] theorem present_null : present (.null ::ₘ m) = present m :=
  Multiset.filter_cons_of_neg _ fun h => h rfl

theorem present_number {x : ℚ} (h : value.number? = some x) :
    present (value ::ₘ m) = value ::ₘ present m :=
  Multiset.filter_cons_of_pos _ fun hnull => by rw [hnull] at h; cases h

/-- The numbers that some datums stand for. -/
def numbers (m : Multiset Datum) : Multiset ℚ :=
  m.filterMap Datum.number?

@[simp] theorem numbers_null : numbers (.null ::ₘ m) = numbers m :=
  Multiset.filterMap_cons_none _ _ rfl

theorem numbers_number {x : ℚ} (h : value.number? = some x) :
    numbers (value ::ₘ m) = x ::ₘ numbers m :=
  Multiset.filterMap_cons_some _ _ _ h

theorem numbers_of_present (h : present m = 0) : numbers m = 0 := by
  refine Multiset.eq_zero_of_forall_notMem fun x hx => ?_
  obtain ⟨d, hd, hnumber⟩ := (Multiset.mem_filterMap _ _).1 hx
  have hnull : d = .null := not_not.1 (Multiset.filter_eq_nil.1 h d hd)
  rw [hnull] at hnumber
  cases hnumber

/-! ## Sums -/

/-- What adding up some datums gives. -/
structure Sums (m : Multiset Datum) (out : Datum) : Prop where
  null : present m = 0 → out = .null
  number : present m ≠ 0 → out.number? = some (numbers m).sum
  scale : out.scale? = (m.map Datum.scale?).sup
  alone : ∀ d, present m = {d} → out = d
  narrow : ∀ n, out = .int32 n → present m = {out}

/-- A step of the sum adds one value. -/
theorem Sums.add (h : Sums m acc) (hvalue : value.Countable) (haligned : acc.Aligned value)
    (hadd : acc.add? value = some out) : Sums (value ::ₘ m) out := by
  rcases hvalue.eq_null_or_number with rfl | ⟨y, hy⟩
  · rw [Datum.add?_null] at hadd
    cases hadd
    refine ⟨?_, ?_, ?_, ?_, ?_⟩
    · rw [present_null]
      exact h.null
    · rw [present_null, numbers_null]
      exact h.number
    · rw [Multiset.map_cons, Multiset.sup_cons, ← h.scale]
      exact (bot_sup_eq _).symm
    · rw [present_null]
      exact h.alone
    · rw [present_null]
      exact h.narrow
  · have hne : present (value ::ₘ m) ≠ 0 := by
      rw [present_number hy]
      exact Multiset.cons_ne_zero
    by_cases hpresent : present m = 0
    · -- The value is the first number, and it stays as it is.
      have hscale := h.scale
      rw [h.null hpresent] at hadd hscale
      cases hadd
      have honly : present (value ::ₘ m) = {value} := by
        rw [present_number hy, hpresent]
        rfl
      refine ⟨fun hnil => absurd hnil hne, fun _ => ?_, ?_, fun d hd => ?_, fun _ _ => honly⟩
      · rw [numbers_number hy, numbers_of_present hpresent, Multiset.sum_cons, Multiset.sum_zero,
          add_zero, hy]
      · rw [Multiset.map_cons, Multiset.sup_cons, ← hscale]
        exact (sup_bot_eq _).symm
      · exact Multiset.singleton_inj.1 (honly.symm.trans hd)
    · obtain ⟨hsum, hscale, hwide⟩ :=
        Datum.add?_number (h.number hpresent) hy haligned hadd
      refine ⟨fun hnil => absurd hnil hne, fun _ => ?_, ?_, fun d hd => ?_,
        fun n hn => absurd hn (hwide n)⟩
      · rw [numbers_number hy, Multiset.sum_cons, hsum, add_comm]
      · rw [Multiset.map_cons, Multiset.sup_cons, hscale, h.scale, sup_comm]
      · have hcard := congrArg Multiset.card hd
        rw [present_number hy, Multiset.card_cons, Multiset.card_singleton] at hcard
        exact absurd (Multiset.card_eq_zero.1 (Nat.succ.inj hcard)) hpresent

theorem sums_singleton (hvalue : value.Countable) : Sums {value} value := by
  have hnothing : Sums 0 .null :=
    ⟨fun _ => rfl, fun h => absurd rfl h, rfl,
      fun d h => absurd h.symm (Multiset.singleton_ne_zero d), fun n h => by cases h⟩
  exact hnothing.add hvalue (fun _ h => by cases h) rfl

theorem Sums.sameNumber (h : Sums m out) (h' : Sums m out') : out.SameNumber out' := by
  by_cases hpresent : present m = 0
  · exact .inl ⟨h.null hpresent, h'.null hpresent⟩
  · exact .inr ⟨_, h.number hpresent, h'.number hpresent⟩

/-- There is one sum. -/
theorem Sums.unique (h : Sums m out) (h' : Sums m out') : out = out' := by
  by_cases hpresent : present m = 0
  · rw [h.null hpresent, h'.null hpresent]
  · by_cases hnarrow : ∃ n, out = .int32 n
    · obtain ⟨n, hn⟩ := hnarrow
      exact (h'.alone out (h.narrow n hn)).symm
    · by_cases hnarrow' : ∃ n, out' = .int32 n
      · obtain ⟨n, hn⟩ := hnarrow'
        exact h.alone out' (h'.narrow n hn)
      · exact Datum.eq_of_number (h.number hpresent) (h'.number hpresent)
          (h.scale.trans h'.scale.symm) (not_exists.1 hnarrow) (not_exists.1 hnarrow')

/-! ## Extremes -/

/-- What taking the greatest of some datums gives, by a measure of their numbers. -/
structure Extreme (measure : ℚ → ℚ) (m : Multiset Datum) (out : Datum) : Prop where
  null : present m = 0 → out = .null
  number : present m ≠ 0 → ∃ x, out.number? = some x ∧ x ∈ numbers m ∧
    ∀ y ∈ numbers m, measure y ≤ measure x

theorem extreme_singleton (measure : ℚ → ℚ) (hvalue : value.Countable) :
    Extreme measure {value} value := by
  rcases hvalue.eq_null_or_number with rfl | ⟨y, hy⟩
  · exact ⟨fun _ => rfl, fun hpresent => absurd present_null hpresent⟩
  · have hpresent : present {value} = {value} := present_number hy
    have hnumbers : numbers {value} = {y} := numbers_number hy
    refine ⟨fun hnil => ?_, fun _ => ⟨y, hy, ?_, fun z hz => ?_⟩⟩
    · rw [hpresent] at hnil
      exact absurd hnil (Multiset.singleton_ne_zero value)
    · rw [hnumbers]
      exact Multiset.mem_singleton_self y
    · rw [hnumbers, Multiset.mem_singleton] at hz
      rw [hz]

/-- A step compares one value with the extreme so far. -/
theorem Extreme.add {measure : ℚ → ℚ} {o : Ordering} (h : Extreme measure m acc)
    (hmeasure : ∀ x y, compare y x = o ↔ measure x < measure y) (hvalue : value.Countable)
    (haligned : acc.Aligned value) :
    Extreme measure (value ::ₘ m)
      (if !value.isNull && (acc.isNull || value.compare? acc == some o) then value else acc) := by
  rcases hvalue.eq_null_or_number with rfl | ⟨y, hy⟩
  · refine ⟨?_, ?_⟩
    · rw [present_null]
      exact h.null
    · rw [present_null, numbers_null]
      exact h.number
  · have hne : present (value ::ₘ m) ≠ 0 := by
      rw [present_number hy]
      exact Multiset.cons_ne_zero
    refine ⟨fun hnil => absurd hnil hne, fun _ => ?_⟩
    rw [Datum.isNull_of_number? hy, numbers_number hy]
    by_cases hpresent : present m = 0
    · rw [h.null hpresent, numbers_of_present hpresent]
      refine ⟨y, hy, Multiset.mem_cons_self y 0, fun z hz => ?_⟩
      rw [Multiset.mem_singleton.1 hz]
    · obtain ⟨x, hx, hmem, hle⟩ := h.number hpresent
      rw [Datum.isNull_of_number? hx, Datum.compare?_numbers hy hx haligned.symm]
      by_cases hlt : measure x < measure y
      · rw [(hmeasure x y).2 hlt]
        refine ⟨y, by simpa using hy, Multiset.mem_cons_self y _, fun z hz => ?_⟩
        rcases Multiset.mem_cons.1 hz with rfl | hz
        · exact le_refl _
        · exact (hle z hz).trans (le_of_lt hlt)
      · have ho : compare y x ≠ o := fun heq => hlt ((hmeasure x y).1 heq)
        refine ⟨x, by simpa [ho] using hx, Multiset.mem_cons_of_mem hmem, fun z hz => ?_⟩
        rcases Multiset.mem_cons.1 hz with rfl | hz
        · exact not_lt.1 hlt
        · exact hle z hz

/-- All extremes are NULL, or stand for one number. -/
theorem Extreme.unique {measure : ℚ → ℚ} (hmeasure : Function.Injective measure)
    (h : Extreme measure m out) (h' : Extreme measure m out') : out.SameNumber out' := by
  by_cases hpresent : present m = 0
  · exact .inl ⟨h.null hpresent, h'.null hpresent⟩
  · obtain ⟨x, hx, hmem, hle⟩ := h.number hpresent
    obtain ⟨y, hy, hmem', hle'⟩ := h'.number hpresent
    have hsame : x = y := hmeasure (le_antisymm (hle' x hmem) (hle y hmem'))
    exact .inr ⟨x, hx, hsame ▸ hy⟩

/-! ## Folds -/

namespace ColumnFold

variable {f : ColumnFold}

/-- What folding the datums of a column gives, for the folds that take all of them into account. -/
def Holds (f : ColumnFold) (m : Multiset Datum) (out : Datum) : Prop :=
  match f with
  | add => Sums m out
  | max => Extreme id m out
  | min => Extreme Neg.neg m out
  | first | average _ _ => True

/-- Whether a fold takes all values of its column into account. -/
def Combines : ColumnFold → Prop
  | add | max | min => True
  | first | average _ _ => False

instance : DecidablePred Combines
  | .add | .max | .min => .isTrue trivial
  | .first | .average _ _ => .isFalse id

/-- Whether two orders of the values agree: they give the same sum, and the same number. -/
structure Agree (f : ColumnFold) (out out' : Datum) : Prop where
  sum : f = add → out = out'
  number : f.Combines → out.SameNumber out'

/-- A step of the fold adds one value. -/
theorem Holds.fold {column : Nat} (h : f.Holds m acc) (hvalue : f.Combines → value.Countable)
    (haligned : f.Combines → acc.Aligned value) (hfold : f.fold column acc value = .ok out) :
    f.Holds (value ::ₘ m) out := by
  cases f with
  | first => trivial
  | average count sum => trivial
  | add =>
    unfold ColumnFold.fold at hfold
    dsimp only at hfold
    split at hfold
    next sum hsum =>
      cases hfold
      exact Sums.add h (hvalue trivial) (haligned trivial) hsum
    next => cases hfold
  | max =>
    cases hfold
    exact Extreme.add h (fun x y => compare_gt_iff_gt) (hvalue trivial) (haligned trivial)
  | min =>
    cases hfold
    refine Extreme.add h (fun x y => ?_) (hvalue trivial) (haligned trivial)
    rw [compare_lt_iff_lt, neg_lt_neg_iff]

/-- A group starts with the values of its first row. -/
theorem holds_singleton (hvalue : f.Combines → value.Countable) : f.Holds {value} value := by
  cases f with
  | first => trivial
  | average count sum => trivial
  | add => exact sums_singleton (hvalue trivial)
  | max => exact extreme_singleton id (hvalue trivial)
  | min => exact extreme_singleton Neg.neg (hvalue trivial)

theorem Holds.agree (h : f.Holds m out) (h' : f.Holds m out') : f.Agree out out' := by
  cases f with
  | first => exact ⟨nofun, False.elim⟩
  | average count sum => exact ⟨nofun, False.elim⟩
  | add => exact ⟨fun _ => Sums.unique h h', fun _ => Sums.sameNumber h h'⟩
  | max => exact ⟨nofun, fun _ => Extreme.unique Function.injective_id h h'⟩
  | min => exact ⟨nofun, fun _ => Extreme.unique neg_injective h h'⟩

end ColumnFold

end Sharding
