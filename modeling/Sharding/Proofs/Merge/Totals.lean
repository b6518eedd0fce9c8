import Sharding.Merge.Groups
import Sharding.Proofs.Datum.FloatQuotient
import Sharding.Proofs.Datum.Order

/-!
# Totals of columns

A grouped query is described by its output columns.  An `OutputColumn` has a kind, and the value
that each base row has under it: the argument of the aggregate, or the value itself in a plain
column.  `OutputColumn.total` is what the aggregate comes to over some base rows, as a number or as
none.

`OutputColumn.Partial` says that a datum is what a shard answers for the base rows of one of its
groups, and `OutputColumn.Total` that it is the final answer; the two differ in averages, which are
no use in parts.  Folding two partial values gives the partial value of both groups together
(`OutputColumn.Partial.fold`), because totals are put together by `Option.merge` (`total_append`).
-/

namespace Sharding

/-! ## Datums as numbers -/

/-- The datum is an integer, or NULL where there is none. -/
def Datum.Stands (d : Datum) : Option Int → Prop
  | none => d = .null
  | some n => ∃ k, d.toInt64? = some k ∧ k.toInt = n

/-- An integer of 64 bits. -/
def FitsInt64 (n : Int) : Prop :=
  -9223372036854775808 ≤ n ∧ n < 9223372036854775808

instance (n : Int) : Decidable (FitsInt64 n) :=
  inferInstanceAs (Decidable (_ ∧ _))

theorem FitsInt64.natAbs_lt {n : Int} (h : FitsInt64 n) : n.natAbs < 2 ^ 64 := by
  obtain ⟨hlow, hhigh⟩ := h
  omega

theorem addInt64?_eq {a b : Int} (h : FitsInt64 (a + b)) :
    ∃ k, addInt64? a b = some k ∧ k.toInt = a + b := by
  refine ⟨Int64.ofInt (a + b), if_pos h, ?_⟩
  exact Int64.toInt_ofInt_of_le h.1 h.2

namespace Datum

/-- The sum of two integers is an integer, as long as it has 64 bits. -/
theorem add?_ints {a b : Datum} {x y : Int64} (ha : a.toInt64? = some x)
    (hb : b.toInt64? = some y) (hfits : FitsInt64 (x.toInt + y.toInt)) :
    ∃ d, a.add? b = some d ∧ d.Stands (some (x.toInt + y.toInt)) := by
  obtain ⟨k, hk, hsum⟩ := addInt64?_eq hfits
  rcases toInt_of_toInt64? ha with ⟨m, rfl, hm⟩ | rfl <;>
    rcases toInt_of_toInt64? hb with ⟨n, rfl, hn⟩ | rfl
  · refine ⟨_, rfl, _, rfl, ?_⟩
    rw [Int64.toInt_add, Int32.toInt_toInt64, Int32.toInt_toInt64, hm, hn]
    exact Int.bmod_eq_of_le (by have := hfits.1; omega) (by have := hfits.2; omega)
  · have hswapped : addInt64? y.toInt m.toInt = some k := by
      rw [addInt64?, hm, Int.add_comm]
      exact hk
    exact ⟨.int64 k, congrArg (Option.map _) hswapped, k, rfl, hsum⟩
  · rw [← hn] at hk
    exact ⟨.int64 k, congrArg (Option.map _) hk, k, rfl, hsum⟩
  · exact ⟨.int64 k, congrArg (Option.map _) hk, k, rfl, hsum⟩

theorem toFloat?_of_toInt64? {d : Datum} {k : Int64} (h : d.toInt64? = some k) :
    d.toFloat? = some (Float.ofInt k.toInt) := by
  rcases toInt_of_toInt64? h with ⟨n, rfl, hn⟩ | rfl
  · exact congrArg (fun n => some (Float.ofInt n)) hn
  · rfl

end Datum

/-! ## Output columns -/

/-- What a column of a grouped query holds. -/
inductive ColumnKind where
  /-- A value of the base rows themselves. -/
  | plain
  | count
  | sum
  | max
  | min
  /-- An average.  The count and the sum of the same values stand in other columns. -/
  | average (count sum : Nat)
deriving DecidableEq

/-- How partial values of a kind are folded. -/
def ColumnKind.fold : ColumnKind → ColumnFold
  | plain => .first
  | count | sum => .add
  | max => .max
  | min => .min
  | average n s => .average n s

/-- How two totals of a kind make up one. -/
def ColumnKind.join : ColumnKind → Int → Int → Int
  | max => Max.max
  | min => Min.min
  | _ => (· + ·)

/-- A column of a grouped query over base rows of the type `β`. -/
structure OutputColumn (β : Type) where
  kind : ColumnKind
  value : β → Datum

namespace OutputColumn

variable {β : Type} {c : OutputColumn β} {bs bs' : List β} {d d' : Datum}

/-- The integers under a column. -/
def numbers (c : OutputColumn β) (bs : List β) : List Int :=
  bs.filterMap fun b => (c.value b).toInt64?.map Int64.toInt

/-- The number of values other than NULL under a column. -/
def present (c : OutputColumn β) (bs : List β) : Nat :=
  bs.countP fun b => !(c.value b).isNull

/-- What the aggregate of a column comes to over some base rows.  There is no sum and no extreme
value of no numbers. -/
def total (c : OutputColumn β) (bs : List β) : Option Int :=
  match c.kind with
  | .count => some (c.present bs)
  | .sum => if c.numbers bs = [] then none else some (c.numbers bs).sum
  | .max => (c.numbers bs).max?
  | .min => (c.numbers bs).min?
  | .plain | .average _ _ => none

/-- The average of the numbers under a column. -/
def mean (c : OutputColumn β) (bs : List β) : Datum :=
  if c.numbers bs = [] then .null
  else .float64 (.ofFloat (Float.ofInt (c.numbers bs).sum / Float.ofInt (c.numbers bs).length))

/-- Where numbers are computed with, all values are integers or NULL. -/
def Numeric (c : OutputColumn β) (bs : List β) : Prop :=
  c.kind ≠ .plain → c.kind ≠ .count →
    ∀ b ∈ bs, c.value b = .null ∨ (c.value b).toInt64?.isSome

/-- A count or a sum over some base rows is an integer of 64 bits. -/
def Fits (c : OutputColumn β) (bs : List β) : Prop :=
  c.kind.fold = .add → ∀ n, c.total bs = some n → FitsInt64 n

/-- The datum is what a shard answers in a column for a group of its base rows.  Unless rows are
`grouped` at all, nothing is said about plain columns. -/
def Partial (grouped : Prop) (c : OutputColumn β) (bs : List β) (d : Datum) : Prop :=
  match c.kind with
  | .plain => grouped → d ∈ bs.map c.value
  | .average _ _ => True
  | .count | .sum | .max | .min => d.Stands (c.total bs)

/-- The datum is the answer of a column for a group of base rows. -/
def Total (grouped : Prop) (c : OutputColumn β) (bs : List β) (d : Datum) : Prop :=
  match c.kind with
  | .plain => grouped → d ∈ bs.map c.value
  | .average _ _ => d = c.mean bs
  | .count | .sum | .max | .min => d.Stands (c.total bs)

/-! ## Totals of two groups -/

theorem numbers_append (c : OutputColumn β) (bs bs' : List β) :
    c.numbers (bs ++ bs') = c.numbers bs ++ c.numbers bs' :=
  List.filterMap_append

theorem max?_append (xs ys : List Int) :
    (xs ++ ys).max? = Option.merge Max.max xs.max? ys.max? := by
  induction xs with
  | nil => rw [List.nil_append, List.max?_nil, Option.merge_none_left]
  | cons x xs ih =>
    rw [List.cons_append, List.max?_cons, List.max?_cons, ih]
    cases xs.max? with
    | none => cases ys.max? <;> rfl
    | some a =>
      cases ys.max? with
      | none => rfl
      | some b => exact congrArg some (Int.max_assoc x a b).symm

theorem min?_append (xs ys : List Int) :
    (xs ++ ys).min? = Option.merge Min.min xs.min? ys.min? := by
  induction xs with
  | nil => rw [List.nil_append, List.min?_nil, Option.merge_none_left]
  | cons x xs ih =>
    rw [List.cons_append, List.min?_cons, List.min?_cons, ih]
    cases xs.min? with
    | none => cases ys.min? <;> rfl
    | some a =>
      cases ys.min? with
      | none => rfl
      | some b => exact congrArg some (Int.min_assoc x a b).symm

/-- The total over two groups is put together from the totals of each. -/
theorem total_append (c : OutputColumn β) (bs bs' : List β) :
    c.total (bs ++ bs') = Option.merge c.kind.join (c.total bs) (c.total bs') := by
  unfold total
  rw [numbers_append]
  cases c.kind with
  | plain => rfl
  | average n s => rfl
  | max => exact max?_append _ _
  | min => exact min?_append _ _
  | count =>
    show some ((c.present (bs ++ bs') : Nat) : Int) = some ((c.present bs : Int) + c.present bs')
    rw [present, List.countP_append]
    rfl
  | sum =>
    dsimp only
    rw [List.sum_append]
    by_cases hbs : c.numbers bs = []
    · simp [hbs]
    · by_cases hbs' : c.numbers bs' = []
      · simp [hbs, hbs']
      · simp [hbs, hbs', ColumnKind.join]

end OutputColumn

/-! ## Folding partial values -/

section Fold

variable {d d' : Datum} {n n' : Option Int}

theorem Datum.Stands.isNull_iff (h : d.Stands n) : d.isNull = n.isNone := by
  cases n with
  | none =>
    cases h
    rfl
  | some n =>
    obtain ⟨k, hk, -⟩ := h
    exact Datum.isNull_of_toInt64? hk

/-- Sums are added up, and NULL is neutral. -/
theorem Datum.Stands.add (column : Nat) (h : d.Stands n) (h' : d'.Stands n')
    (hfits : ∀ m, Option.merge (· + ·) n n' = some m → FitsInt64 m) :
    ∃ e, ColumnFold.add.fold column d d' = .ok e ∧ e.Stands (Option.merge (· + ·) n n') := by
  cases n with
  | none =>
    cases h
    refine ⟨d', rfl, ?_⟩
    rwa [Option.merge_none_left]
  | some x =>
    obtain ⟨k, hk, rfl⟩ := h
    cases n' with
    | none =>
      cases h'
      refine ⟨d, ?_, k, hk, rfl⟩
      rcases Datum.toInt_of_toInt64? hk with ⟨m, rfl, -⟩ | rfl <;> rfl
    | some y =>
      obtain ⟨k', hk', rfl⟩ := h'
      obtain ⟨e, he, hsum⟩ := Datum.add?_ints hk hk' (hfits _ rfl)
      refine ⟨e, ?_, hsum⟩
      rw [ColumnFold.fold, he]

/-- Of two extreme values the more extreme stays, and NULL gives way. -/
theorem Datum.Stands.extreme {o : Ordering} {pick : Int → Int → Int}
    (hpick : ∀ x y, pick x y = if compare y x = o then y else x)
    (h : d.Stands n) (h' : d'.Stands n') :
    (if !d'.isNull && (d.isNull || d'.compare? d == some o) then d' else d).Stands
      (Option.merge pick n n') := by
  rw [h.isNull_iff, h'.isNull_iff]
  cases n' with
  | none =>
    rw [Option.merge_none_right]
    exact h
  | some y =>
    cases n with
    | none => exact h'
    | some x =>
      obtain ⟨k, hk, rfl⟩ := h
      obtain ⟨k', hk', rfl⟩ := h'
      rw [Datum.compare?_ints hk' hk, Option.merge_some_some, hpick]
      by_cases ho : compare k'.toInt k.toInt = o
      · rw [if_pos ho, if_pos (by simp [ho])]
        exact ⟨k', hk', rfl⟩
      · rw [if_neg ho, if_neg (by simp [ho])]
        exact ⟨k, hk, rfl⟩

theorem max_eq_ite (x y : Int) : max x y = if compare y x = .gt then y else x := by
  simp only [Int.compare_eq_gt, Int.max_def]
  split_ifs <;> omega

theorem min_eq_ite (x y : Int) : min x y = if compare y x = .lt then y else x := by
  simp only [Int.compare_eq_lt, Int.min_def]
  split_ifs <;> omega

/-- Folding two partial values gives the partial value of both groups together.  A plain column
keeps its value. -/
theorem OutputColumn.Partial.fold {β : Type} {c : OutputColumn β} {bs bs' : List β}
    {grouped : Prop} (column : Nat) (hfits : c.Fits (bs ++ bs')) (h : c.Partial grouped bs d)
    (h' : c.Partial grouped bs' d') :
    ∃ e, c.kind.fold.fold column d d' = .ok e ∧ c.Partial grouped (bs ++ bs') e ∧
      (c.kind = .plain → e = d) := by
  have htotal := c.total_append bs bs'
  unfold Fits at hfits
  unfold Partial at h h' ⊢
  rw [htotal] at hfits ⊢
  cases hkind : c.kind with
  | plain =>
    rw [hkind] at h
    refine ⟨d, rfl, fun hgrouped => ?_, fun _ => rfl⟩
    rw [List.map_append]
    exact List.mem_append_left _ (h hgrouped)
  | average n s => exact ⟨d, rfl, trivial, fun h => by cases h⟩
  | count =>
    rw [hkind] at h h' hfits
    obtain ⟨e, he, hsum⟩ := h.add column h' (hfits rfl)
    exact ⟨e, he, hsum, fun h => by cases h⟩
  | sum =>
    rw [hkind] at h h' hfits
    obtain ⟨e, he, hsum⟩ := h.add column h' (hfits rfl)
    exact ⟨e, he, hsum, fun h => by cases h⟩
  | max =>
    rw [hkind] at h h'
    exact ⟨_, rfl, h.extreme max_eq_ite h', fun h => by cases h⟩
  | min =>
    rw [hkind] at h h'
    exact ⟨_, rfl, h.extreme min_eq_ite h', fun h => by cases h⟩

end Fold

/-! ## Averages -/

namespace OutputColumn

variable {β : Type} {value : β → Datum} {kind : ColumnKind} {bs : List β}

/-- Where values are integers or NULL, those other than NULL are the numbers. -/
theorem present_eq (h : ∀ b ∈ bs, value b = .null ∨ (value b).toInt64?.isSome) :
    present ⟨kind, value⟩ bs = (numbers ⟨kind, value⟩ bs).length := by
  induction bs with
  | nil => rfl
  | cons b bs ih =>
    have ih := ih fun b' hb' => h b' (List.mem_cons_of_mem _ hb')
    unfold present numbers at *
    rw [List.countP_cons, List.filterMap_cons, ih]
    rcases h b List.mem_cons_self with hnull | hsome
    · simp only [hnull]
      rfl
    · obtain ⟨k, hk⟩ := Option.isSome_iff_exists.1 hsome
      simp only [hk, Datum.isNull_of_toInt64? hk]
      rfl

/-- The average is computed from the count and the sum of the same values. -/
theorem averageOf_eq {n s : Datum}
    (hvalues : ∀ b ∈ bs, value b = .null ∨ (value b).toInt64?.isSome)
    (hfits : (⟨.count, value⟩ : OutputColumn β).Fits bs)
    (hcount : n.Stands (total ⟨.count, value⟩ bs)) (hsum : s.Stands (total ⟨.sum, value⟩ bs)) :
    averageOf (some n) (some s) = mean ⟨kind, value⟩ bs := by
  have hpresent : present ⟨.count, value⟩ bs = (numbers ⟨.count, value⟩ bs).length :=
    present_eq hvalues
  have hlength : FitsInt64 (numbers ⟨.count, value⟩ bs).length := by
    rw [← hpresent]
    exact hfits rfl _ rfl
  obtain ⟨k, hk, hkn⟩ := hcount
  rw [hpresent] at hkn
  unfold total at hsum
  dsimp only at hsum
  unfold averageOf mean
  simp only [Option.bind_some, Datum.toFloat?_of_toInt64? hk, Option.getD_some, hkn,
    ofInt_beq_zero hlength.natAbs_lt]
  by_cases hnone : numbers ⟨.sum, value⟩ bs = []
  · rw [if_pos hnone] at hsum
    rw [if_pos (show numbers ⟨kind, value⟩ bs = [] from hnone), hsum]
    rfl
  · rw [if_neg hnone] at hsum
    obtain ⟨m, hm, hms⟩ := hsum
    have hpos : (numbers ⟨.count, value⟩ bs).length ≠ 0 := fun h =>
      hnone (List.length_eq_zero_iff.1 h)
    rw [if_neg (show numbers ⟨kind, value⟩ bs ≠ [] from hnone), Datum.toFloat?_of_toInt64? hm, hms]
    dsimp only
    rw [if_neg (by simpa using hpos)]
    rfl

/-- An average is NULL or a float that can be compared. -/
theorem mean_comparable (hcount : (⟨.count, value⟩ : OutputColumn β).Fits bs)
    (hsum : (⟨.sum, value⟩ : OutputColumn β).Fits bs)
    (hvalues : ∀ b ∈ bs, value b = .null ∨ (value b).toInt64?.isSome) :
    (mean ⟨kind, value⟩ bs).isNull ∨
      ∃ x, mean ⟨kind, value⟩ bs = .float64 x ∧ unpacked x.value ≠ .notANumber := by
  unfold mean
  by_cases hnone : numbers ⟨kind, value⟩ bs = []
  · rw [if_pos hnone]
    exact .inl rfl
  · rw [if_neg hnone]
    have hlength : FitsInt64 (numbers ⟨kind, value⟩ bs).length := by
      rw [← present_eq hvalues]
      exact hcount rfl _ rfl
    have htotal : FitsInt64 (numbers ⟨kind, value⟩ bs).sum := hsum rfl _ (if_neg hnone)
    have hpos : ((numbers ⟨kind, value⟩ bs).length : Int) ≠ 0 := fun h =>
      hnone (List.length_eq_zero_iff.1 (Int.ofNat_eq_zero.1 h))
    refine .inr ⟨_, rfl, ?_⟩
    rw [Double.value_ofFloat]
    exact div_ne_nan htotal.natAbs_lt hpos hlength.natAbs_lt

end OutputColumn

end Sharding
