import Sharding.Proofs.Rule.Slots
import Sharding.Proofs.Strict

/-!
# Hits of a sharding value

`TableRule.route` collects the slots that a sharding value hits and picks the nodes at them.
`TableRule.routeStrictly` marks the slots in a list with one place for each node instead, and pairs
the nodes with the marks.  It crashes when it takes a remainder by zero nodes or marks a place that
is not there.

The two agree on every rule and every value: that there are nodes is tested before a remainder is
taken, and a remainder by their number is a place among the marks.
-/

namespace Sharding

/-- The marks of `n` places, of which those at some positions are hit. -/
def marksAt (n : Nat) (positions : List Nat) : List Bool :=
  (List.range n).map fun i => decide (i ∈ positions)

/-- Marks one more place. -/
def mark (hits : List Bool) (i : Nat) : Except Stop (List Bool) :=
  if i < hits.length then .ok (hits.set i true) else .error .crash

namespace TableRule

variable (t : TableRule) (a : Algorithm)

/-- The slot of a value. -/
def slotStrictly (value : Datum) : Except Stop Nat :=
  if value.isNull then .error (.error (.routing (.nullShardingValue t.name)))
  else remainder (a.code value) t.nodes.length

/-- Marks the slots of some values. -/
def markValues (hits : List Bool) (values : List Datum) : Except Stop (List Bool) :=
  values.foldlM (fun hits value => do mark hits (← t.slotStrictly a value)) hits

/-- Marks the slots of a range: one by one when it is narrow, and all of them otherwise. -/
def markRange (hits : List Bool) (lower upper : Option Datum) : Except Stop (List Bool) :=
  let all := hits.map fun _ => true
  match a, lower.bind Datum.toInt64?, upper.bind Datum.toInt64? with
  | .modulo, some lo, some hi =>
    let width := hi.toInt - lo.toInt
    if width < 0 then .ok hits
    else if width < t.nodes.length then
      t.markValues .modulo hits
        ((integersBetween lo.toInt hi.toInt).map fun v => .int64 (Int64.ofInt v))
    else .ok all
  | _, _, _ => .ok all

/-- The nodes that can hold rows with the given values, by marks. -/
def routeStrictly (value : ShardingValue) : Except Stop (List DataNode) :=
  if t.nodes.isEmpty then .error (.error (.routing (.noDataNodes t.name)))
  else
    match t.strategy with
    | none => .ok t.nodes
    | some s => do
      let unmarked := List.replicate t.nodes.length false
      let hits ← match value with
        | .list values => t.markValues s.algorithm unmarked values
        | .range lower upper => t.markRange s.algorithm unmarked lower upper
      return ((t.nodes.zip hits).filter (·.2)).map (·.1)

end TableRule

/-- The data nodes of a table that can hold rows with the given values, by marks. -/
def ShardingRule.routeStrictly (r : ShardingRule) (name : String) (value : ShardingValue) :
    Except Stop (List DataNode) := do
  let t ← routed (r.table name)
  t.routeStrictly value

/-! ## Marks -/

@[simp] theorem length_marksAt (n : Nat) (positions : List Nat) :
    (marksAt n positions).length = n := by
  rw [marksAt, List.length_map, List.length_range]

theorem marksAt_nil (n : Nat) : marksAt n [] = List.replicate n false := by
  refine List.ext_getElem (by simp) fun i h h' => ?_
  simp [marksAt]

theorem marksAt_range (n : Nat) (positions : List Nat) :
    marksAt n (List.range n) = (marksAt n positions).map fun _ => true := by
  refine List.ext_getElem (by simp) fun i h h' => ?_
  rw [length_marksAt] at h
  simp [marksAt, h]

theorem mark_marksAt {n i : Nat} (h : i < n) (positions : List Nat) :
    mark (marksAt n positions) i = .ok (marksAt n (positions ++ [i])) := by
  rw [mark, if_pos (by rwa [length_marksAt])]
  refine congrArg Except.ok (List.ext_getElem (by simp) fun j h h' => ?_)
  rw [List.getElem_set]
  by_cases hij : i = j
  · simp [marksAt, hij]
  · simp [marksAt, hij, Ne.symm hij]

/-- Pairing with marks picks the elements at the marked positions. -/
theorem zip_marksAt {α : Type} (xs : List α) (positions : List Nat) :
    ((xs.zip (marksAt xs.length positions)).filter (·.2)).map (·.1) =
      atPositions positions xs := by
  rw [marksAt, List.zip_map_right, atPositions, List.zipIdx_eq_zip_range', ← List.range_eq_range',
    List.filter_map, List.map_map, ← List.filterMap_eq_filter, List.map_filterMap]
  refine List.filterMap_congr fun (x, i) _ => ?_
  by_cases hi : i ∈ positions <;> simp [Option.guard, hi]

namespace TableRule

variable {t : TableRule} {a : Algorithm}

theorem slotStrictly_eq (hne : t.nodes ≠ []) (value : Datum) :
    t.slotStrictly a value = routed (if value.isNull then .error (.nullShardingValue t.name)
      else .ok (a.slot t.nodes.length value)) := by
  rw [slotStrictly, remainder_eq _ (List.length_pos_iff.2 hne), ← Algorithm.slot_eq]
  split <;> rfl

/-- The slots of values are marked in their order, up to the first NULL. -/
theorem markValues_eq (hne : t.nodes ≠ []) (positions : List Nat) (values : List Datum) :
    t.markValues a (marksAt t.nodes.length positions) values = routed (do
      let slots ← t.slots a values
      return marksAt t.nodes.length (positions ++ slots)) := by
  induction values generalizing positions with
  | nil =>
    show Except.ok (marksAt t.nodes.length positions) =
      .ok (marksAt t.nodes.length (positions ++ []))
    rw [List.append_nil]
  | cons value values ih =>
    have hlt := a.slot_lt (List.length_pos_iff.2 hne) value
    rw [markValues, List.foldlM_cons, slotStrictly_eq hne, slots, List.mapM_cons]
    cases hnull : value.isNull with
    | true => rfl
    | false =>
      show (mark (marksAt t.nodes.length positions) (a.slot t.nodes.length value) >>= fun hits =>
        t.markValues a hits values) = routed ((do
          let slots ← t.slots a values
          return a.slot t.nodes.length value :: slots) >>= fun slots =>
            pure (marksAt t.nodes.length (positions ++ slots)))
      rw [mark_marksAt hlt, bind_assoc]
      show t.markValues a (marksAt t.nodes.length (positions ++ [_])) values = _
      rw [ih]
      simp only [List.append_assoc, List.singleton_append]
      rfl

/-- The slots of integers of 64 bits are their remainders. -/
theorem slots_integers (lo hi : Int64) :
    t.slots .modulo ((integersBetween lo.toInt hi.toInt).map fun v => .int64 (Int64.ofInt v)) =
      .ok ((integersBetween lo.toInt hi.toInt).map fun v =>
        (v % (t.nodes.length : Int)).toNat) := by
  refine mapM_eq_ok_iff.2 ?_
  rw [List.forall₂_map_left_iff, List.forall₂_map_right_iff, List.forall₂_same]
  intro v hv
  obtain ⟨i, hmem, rfl⟩ := List.mem_map.1 hv
  have hlt := List.mem_range.1 hmem
  have hlo := lo.le_toInt
  have hhi := hi.toInt_lt
  have hcode : Algorithm.modulo.code (.int64 (Int64.ofInt (lo.toInt + i))) = lo.toInt + i :=
    Int64.toInt_ofInt_of_le (by omega) (by omega)
  rw [Algorithm.slot_eq, hcode]
  rfl

theorem markRange_eq (hne : t.nodes ≠ []) (lower upper : Option Datum) :
    t.markRange a (marksAt t.nodes.length []) lower upper =
      .ok (marksAt t.nodes.length (t.rangeSlots a lower upper)) := by
  have hall : (marksAt t.nodes.length []).map (fun _ => true) =
      marksAt t.nodes.length (List.range t.nodes.length) := (marksAt_range _ _).symm
  unfold markRange rangeSlots
  cases a with
  | hash => exact congrArg Except.ok hall
  | modulo =>
    cases lower.bind Datum.toInt64? with
    | none => exact congrArg Except.ok hall
    | some lo =>
      cases upper.bind Datum.toInt64? with
      | none => exact congrArg Except.ok hall
      | some hi =>
        dsimp only
        split
        next => rfl
        next =>
          split
          next hnarrow => rw [markValues_eq hne, slots_integers]; rfl
          next => exact congrArg Except.ok hall

theorem routeStrictly_eq (t : TableRule) (value : ShardingValue) :
    t.routeStrictly value = routed (t.route value) := by
  unfold routeStrictly route
  split
  next => rfl
  next hempty =>
    have hne : t.nodes ≠ [] := fun hnil => hempty (List.isEmpty_iff.2 hnil)
    cases t.strategy with
    | none => rfl
    | some s =>
      dsimp only
      rw [← marksAt_nil]
      cases value with
      | list values =>
        dsimp only
        rw [markValues_eq hne, routed_bind, routed_bind, bind_assoc]
        refine bind_congr fun slots => ?_
        show Except.ok _ = Except.ok _
        rw [List.nil_append, zip_marksAt]
      | range lower upper =>
        dsimp only
        rw [markRange_eq hne]
        exact congrArg Except.ok (zip_marksAt _ _)

end TableRule

theorem ShardingRule.routeStrictly_eq (r : ShardingRule) (name : String) (value : ShardingValue) :
    r.routeStrictly name value = routed (r.route name value) := by
  rw [routeStrictly, ShardingRule.route, routed_bind]
  exact bind_congr fun t => t.routeStrictly_eq value

end Sharding
