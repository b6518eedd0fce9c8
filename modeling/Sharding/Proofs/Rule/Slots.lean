import Sharding.Proofs.Datum.Equality
import Sharding.Proofs.Results
import Sharding.Rule.Basic

/-!
# Nodes of values

A value of the sharding column is stored on the node at its slot (`TableRule.Places`).  What a
query asks for is a list of values or a range, and `TableRule.route` answers which nodes that hits.
A list is placed value by value, while a range is either enumerated or hits all nodes; both include
the node of every value in them (`TableRule.mem_route_list`, `TableRule.mem_route_range`).

A slot is the remainder of a code (`Algorithm.code`): of the value itself, or of the hash of its
text.  Two values share a slot under every number of slots exactly when they have the same code
(`Algorithm.slot_eq_iff`), which equal values of one form have (`Datum.SameForm.code_eq`).
-/

namespace Sharding

/-! ## Names -/

section Names

variable {r : ShardingRule} {name table : String}

/-- Two spellings of a name are the same as the same names. -/
theorem sameName_congr (h : sameName name table = true) (other : String) :
    sameName other name = sameName other table := by
  rw [sameName, sameName, sameName_iff.1 h]

theorem ShardingRule.table?_congr (h : sameName name table = true) :
    r.table? name = r.table? table := by
  rw [ShardingRule.table?, ShardingRule.table?]
  simp only [sameName_congr h]

theorem ShardingRule.isBroadcast_congr (h : sameName name table = true) :
    r.isBroadcast name = r.isBroadcast table := by
  rw [ShardingRule.isBroadcast, ShardingRule.isBroadcast]
  simp only [sameName_congr h]

theorem ShardingRule.shardingColumn?_eq {t : TableRule} (ht : r.table? table = some t) :
    r.shardingColumn? table = t.strategy.map (·.column) := by
  rw [ShardingRule.shardingColumn?, ht]
  show (t.strategy.bind fun s => some s.column) = _
  cases t.strategy <;> rfl

theorem ShardingRule.route_eq {t : TableRule} (ht : r.table? table = some t)
    (value : ShardingValue) : r.route table value = t.route value := by
  rw [ShardingRule.route, ShardingRule.table, ht]
  rfl

theorem ShardingRule.table_of_dataNodes {nodes : List DataNode}
    (h : r.dataNodes table = .ok nodes) :
    ∃ t, r.table? table = some t ∧ t.nodes = nodes ∧ nodes ≠ [] := by
  unfold ShardingRule.dataNodes at h
  obtain ⟨t, ht, h⟩ := exists_of_bind_eq_ok h
  unfold ShardingRule.table at ht
  split at ht
  · rename_i found hfound
    cases ht
    split at h
    · cases h
    · rename_i hempty
      cases h
      exact ⟨t, hfound, rfl, fun hnil => hempty (by rw [hnil]; rfl)⟩
  · cases ht

theorem ShardingRule.dataNodes_eq {t : TableRule} (ht : r.table? table = some t)
    (hne : t.nodes ≠ []) : r.dataNodes table = .ok t.nodes := by
  unfold ShardingRule.dataNodes ShardingRule.table
  rw [ht]
  show (if _ then _ else _) = _
  rw [if_neg (by simpa using hne)]

theorem DataNode.eq_of {x y : DataNode} (hshard : x.shard = y.shard) (htable : x.table = y.table) :
    x = y := by
  cases x
  cases y
  cases hshard
  cases htable
  rfl

end Names

/-! ## Slots -/

theorem mem_atPositions {α : Type} {positions : List Nat} {xs : List α} {i : Nat} {x : α}
    (hi : i ∈ positions) (hx : xs[i]? = some x) : x ∈ atPositions positions xs := by
  refine List.mem_filterMap.2 ⟨(x, i), List.mem_zipIdx_iff_getElem?.2 hx, ?_⟩
  exact if_pos hi

theorem filterMap_zipIdx_singleton {α : Type} {xs : List α} {i : Nat} {x : α} (start : Nat)
    (h : xs[i]? = some x) :
    (xs.zipIdx start).filterMap (fun (y, k) => if k ∈ [start + i] then some y else none) = [x] := by
  induction xs generalizing i start with
  | nil => cases h
  | cons y ys ih =>
    rw [List.zipIdx_cons, List.filterMap_cons]
    cases i with
    | zero =>
      cases h
      have hrest : (ys.zipIdx (start + 1)).filterMap
          (fun (y, k) => if k ∈ [start + 0] then some y else none) = [] := by
        rw [List.filterMap_eq_nil_iff]
        rintro ⟨z, k⟩ hmem
        have hle : start + 1 ≤ k := List.le_snd_of_mem_zipIdx hmem
        have hne : k ∉ [start + 0] := by
          rw [List.mem_singleton]
          omega
        dsimp only
        rw [if_neg hne]
      rw [hrest]
      dsimp only
      rw [if_pos (List.mem_singleton.2 (Nat.add_zero start).symm)]
    | succ i =>
      have hne : start ∉ [start + (i + 1)] := by
        rw [List.mem_singleton]
        omega
      have ih := ih (start + 1) h
      dsimp only
      rw [if_neg hne, show start + (i + 1) = start + 1 + i by omega]
      exact ih

theorem atPositions_singleton {α : Type} {xs : List α} {i : Nat} {x : α} (h : xs[i]? = some x) :
    atPositions [i] xs = [x] := by
  have hzero := filterMap_zipIdx_singleton 0 h
  rwa [Nat.zero_add] at hzero

/-- What the slot of a value is a remainder of: the value itself, or the hash of its text. -/
def Algorithm.code (a : Algorithm) (value : Datum) : Int :=
  match a, value.toInt64? with
  | modulo, some x => x.toInt
  | _, _ => (hashText value.display).toNat

theorem Algorithm.slot_eq (a : Algorithm) (n : Nat) (value : Datum) :
    a.slot n value = (a.code value % (n : Int)).toNat := by
  have hhash : (hashText value.display).toNat % n =
      (((hashText value.display).toNat : Int) % (n : Int)).toNat := by
    rw [← Int.natCast_emod, Int.toNat_natCast]
  unfold Algorithm.slot Algorithm.code
  cases value.toInt64? with
  | none => cases a <;> exact hhash
  | some x =>
    cases a with
    | modulo => rfl
    | hash => exact hhash

theorem Algorithm.code_modulo {d : Datum} {x : Int64} (h : d.toInt64? = some x) :
    Algorithm.modulo.code d = x.toInt := by
  unfold Algorithm.code
  rw [h]

/-- Two values share a slot under every number of slots exactly when their codes are equal. -/
theorem Algorithm.slot_eq_iff {a : Algorithm} {d d' : Datum} :
    (∀ n, 0 < n → a.slot n d = a.slot n d') ↔ a.code d = a.code d' := by
  constructor
  · intro h
    obtain ⟨n, hn⟩ : ∃ n, n = (a.code d - a.code d').natAbs + 1 := ⟨_, rfl⟩
    have hpos : (0 : Int) < n := by omega
    have hslot := h n (by omega)
    rw [a.slot_eq, a.slot_eq] at hslot
    have hmod : a.code d % (n : Int) = a.code d' % (n : Int) := by
      have hleft := Int.emod_nonneg (a.code d) (Int.ne_of_gt hpos)
      have hright := Int.emod_nonneg (a.code d') (Int.ne_of_gt hpos)
      omega
    -- the codes differ by a multiple of a number that is larger than their difference
    have hdvd : (n : Int) ∣ a.code d - a.code d' :=
      Int.dvd_of_emod_eq_zero (Int.emod_eq_emod_iff_emod_sub_eq_zero.1 hmod)
    have hzero := Int.eq_zero_of_dvd_of_natAbs_lt_natAbs hdvd (by omega)
    omega
  · intro h n _
    rw [a.slot_eq, a.slot_eq, h]

/-- An integer has the same text in both widths. -/
theorem Datum.display_of_toInt64? {d : Datum} {x : Int64} (h : d.toInt64? = some x) :
    d.display = intText x.toInt := by
  rcases toInt_of_toInt64? h with ⟨n, rfl, hn⟩ | rfl
  · rw [← hn]
    rfl
  · rfl

/-- An integer has the same code in both widths. -/
theorem Algorithm.code_ints (a : Algorithm) {d d' : Datum} {x : Int64}
    (h : d.toInt64? = some x) (h' : d'.toInt64? = some x) : a.code d = a.code d' := by
  unfold Algorithm.code
  rw [h, h', Datum.display_of_toInt64? h, Datum.display_of_toInt64? h']

/-- Values with the same text have the same hash. -/
theorem Algorithm.code_hash {d d' : Datum} (h : d.display = d'.display) :
    Algorithm.hash.code d = Algorithm.hash.code d' := by
  unfold Algorithm.code
  rw [h]

/-- Equal values of one form have the same code. -/
theorem Datum.SameForm.code_eq {d d' : Datum} (hform : d.SameForm d') (h : d.equals d' = true)
    (a : Algorithm) : a.code d = a.code d' := by
  rcases hform.eq_or_ints h with rfl | ⟨x, hx, hx'⟩
  · rfl
  · exact a.code_ints hx hx'

theorem mem_integersBetween {lo hi x : Int} (hlo : lo ≤ x) (hhi : x ≤ hi) :
    x ∈ TableRule.integersBetween lo hi := by
  refine List.mem_map.2 ⟨(x - lo).toNat, List.mem_range.2 ?_, ?_⟩ <;> omega

namespace TableRule

variable {t : TableRule} {s : Strategy} {node : DataNode} {nodes : List DataNode}

/-- A value of the sharding column is stored on the node at its slot. -/
def Places (t : TableRule) (s : Strategy) (value : Datum) (node : DataNode) : Prop :=
  t.nodes[s.algorithm.slot t.nodes.length value]? = some node

theorem exists_places (s : Strategy) (hne : t.nodes ≠ []) (value : Datum) :
    ∃ node, t.Places s value node :=
  ⟨_, List.getElem?_eq_getElem (s.algorithm.slot_lt (List.length_pos_iff.2 hne) value)⟩

theorem Places.mem {value : Datum} (h : t.Places s value node) : node ∈ t.nodes :=
  List.mem_of_getElem? h

theorem Places.isEmpty {value : Datum} (h : t.Places s value node) : t.nodes.isEmpty = false :=
  List.isEmpty_eq_false_iff_exists_mem.2 ⟨node, h.mem⟩

/-- A value with the same code is stored on the same node. -/
theorem Places.of_code {value value' : Datum} (h : t.Places s value node)
    (hcode : s.algorithm.code value = s.algorithm.code value') : t.Places s value' node := by
  unfold Places at h ⊢
  rw [Algorithm.slot_eq, ← hcode, ← Algorithm.slot_eq]
  exact h

/-- The nodes of a list of values are those at the slots of all of them. -/
theorem route_list (hs : t.strategy = some s) {values : List Datum}
    (h : t.route (.list values) = .ok nodes) :
    nodes = atPositions (values.map (s.algorithm.slot t.nodes.length)) t.nodes ∧
      ∀ value ∈ values, value.isNull = false := by
  unfold route at h
  split at h
  · cases h
  · rw [hs] at h
    obtain ⟨slots, hslots, h⟩ := exists_of_bind_eq_ok h
    cases h
    have hslot : ∀ value slot, (if value.isNull then Except.error (.nullShardingValue t.name)
        else .ok (s.algorithm.slot t.nodes.length value)) =
          (.ok slot : Except RoutingCause Nat) →
        value.isNull = false ∧ slot = s.algorithm.slot t.nodes.length value := by
      intro value slot hslot
      by_cases hnull : value.isNull
      · rw [if_pos hnull] at hslot
        cases hslot
      · rw [if_neg hnull] at hslot
        cases hslot
        exact ⟨Bool.eq_false_iff.2 hnull, rfl⟩
    refine ⟨?_, fun value hvalue => ?_⟩
    · rw [mapM_eq_map hslots fun value _ slot h => (hslot value slot h).2]
    · obtain ⟨slot, h⟩ := exists_of_mapM hslots hvalue
      exact (hslot value slot h).1

/-- A value that is not NULL is routed to its node alone. -/
theorem Places.route {value : Datum} (hs : t.strategy = some s) (hnull : value.isNull = false)
    (h : t.Places s value node) : t.route (.list [value]) = .ok [node] := by
  have hslots : t.slots s.algorithm [value] = .ok [s.algorithm.slot t.nodes.length value] := by
    show ([value].mapM fun v => _) = _
    rw [List.mapM_cons, List.mapM_nil, hnull]
    rfl
  unfold TableRule.route
  rw [h.isEmpty, hs]
  dsimp only
  rw [hslots]
  show Except.ok (atPositions _ _) = _
  rw [atPositions_singleton h]

/-- A value that is routed to nodes is routed to the one at its slot. -/
theorem route_singleton (hs : t.strategy = some s) {value : Datum}
    (h : t.route (.list [value]) = .ok nodes) :
    value.isNull = false ∧ ∃ node, nodes = [node] ∧ t.Places s value node := by
  have hne : t.nodes ≠ [] := by
    intro hnil
    rw [TableRule.route, hnil] at h
    cases h
  obtain ⟨node, hnode⟩ := exists_places s hne value
  obtain ⟨rfl, hnull⟩ := route_list hs h
  exact ⟨hnull value List.mem_cons_self, node, atPositions_singleton hnode, hnode⟩

/-- A list of values hits the node of each of them, also of a value that is given in another form
with the same code. -/
theorem mem_route_list (hs : t.strategy = some s) {values : List Datum} {value given : Datum}
    (h : t.route (.list values) = .ok nodes) (hgiven : given ∈ values)
    (hcode : s.algorithm.code given = s.algorithm.code value)
    (hplaces : t.Places s value node) : node ∈ nodes := by
  have hslot : s.algorithm.slot t.nodes.length given = s.algorithm.slot t.nodes.length value := by
    rw [Algorithm.slot_eq, Algorithm.slot_eq, hcode]
  rw [(route_list hs h).1]
  exact mem_atPositions (List.mem_map.2 ⟨given, hgiven, hslot⟩) hplaces

/-- A range hits the slot of every integer between its bounds.  A bound that is missing or is no
integer does not bound. -/
theorem mem_rangeSlots {a : Algorithm} {lower upper : Option Datum} {value : Datum} {x : Int64}
    (hx : value.toInt64? = some x) (hne : t.nodes ≠ [])
    (hlower : ∀ lo, lower.bind Datum.toInt64? = some lo → lo.toInt ≤ x.toInt)
    (hupper : ∀ hi, upper.bind Datum.toInt64? = some hi → x.toInt ≤ hi.toInt) :
    a.slot t.nodes.length value ∈ t.rangeSlots a lower upper := by
  have hall : a.slot t.nodes.length value ∈ List.range t.nodes.length :=
    List.mem_range.2 (a.slot_lt (List.length_pos_iff.2 hne) value)
  unfold rangeSlots
  dsimp only
  split
  · rename_i lo hi hlo hhi
    have hlo := hlower lo hlo
    have hhi := hupper hi hhi
    rw [if_neg (by omega)]
    split
    · rw [Algorithm.slot_eq, Algorithm.code_modulo hx]
      exact List.mem_map.2 ⟨x.toInt, mem_integersBetween hlo hhi, rfl⟩
    · exact hall
  · exact hall

/-- A range hits the node of every integer between its bounds. -/
theorem mem_route_range (hs : t.strategy = some s) {lower upper : Option Datum} {value : Datum}
    {x : Int64} (h : t.route (.range lower upper) = .ok nodes) (hx : value.toInt64? = some x)
    (hlower : ∀ lo, lower.bind Datum.toInt64? = some lo → lo.toInt ≤ x.toInt)
    (hupper : ∀ hi, upper.bind Datum.toInt64? = some hi → x.toInt ≤ hi.toInt)
    (hplaces : t.Places s value node) : node ∈ nodes := by
  unfold TableRule.route at h
  rw [hplaces.isEmpty, hs] at h
  cases h
  exact mem_atPositions
    (mem_rangeSlots hx (List.ne_nil_of_mem hplaces.mem) hlower hupper) hplaces

end TableRule

end Sharding
