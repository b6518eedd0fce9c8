import Sharding.Proofs.Datum.Literal
import Sharding.Proofs.Rule.Slots
import Sharding.Proofs.Route.Placing
import Sharding.Route.Engine

/-!
# Physical inserts

An insert becomes one physical insert for each node that gets rows of it.

* `physicalInsert` is the statement of one node for some rows.  Each value is written as a text,
  with what is bound for it where the text is a question mark, so the parameters stand in the order
  of the question marks (`insertUnit_eq`).
* `InsertRow.Home` says which nodes store a row: all of them for a broadcast table, the node of the
  row's sharding value, or the only node there is.  Routing finds these nodes
  (`InsertRow.home_of_nodes`).
-/

namespace Sharding

/-! ## The statement of one node -/

/-- An operand in a physical insert: its text, and what is bound for it. -/
def Operand.written (params : List Datum) : Operand → String × Option Datum
  | .parameter index => ("?", params[index]?)
  | .literal d => (d.literal, none)

/-- The values of a row in a physical insert, a drawn key last. -/
def InsertRow.written (params : List Datum) (row : InsertRow) : List (String × Option Datum) :=
  row.values.map (Operand.written params) ++ (row.key.map fun key => ("?", some key)).toList

/-- The physical insert of some rows on a node. -/
def physicalInsert (columns : List String) (params : List Datum) (node : DataNode)
    (rows : List InsertRow) : RouteUnit where
  shard := node.shard
  sql := Sql.insertText node.table columns (rows.map fun row => (row.written params).map Prod.fst)
  params := rows.flatMap fun row => (row.written params).filterMap Prod.snd

/-- A value is bound exactly where the text is a question mark. -/
def InsertRow.Marked (params : List Datum) (row : InsertRow) : Prop :=
  ∀ value ∈ row.written params, value.1 = "?" ↔ value.2.isSome

variable {params : List Datum} {row : InsertRow} {node : DataNode}

theorem InsertRow.texts_eq (params : List Datum) (row : InsertRow) :
    row.texts = (row.written params).map Prod.fst := by
  have hvalues : row.values.map Operand.insertText =
      (row.values.map (Operand.written params)).map Prod.fst := by
    rw [List.map_map]
    refine List.map_congr_left fun operand _ => ?_
    cases operand <;> rfl
  rw [InsertRow.texts, InsertRow.written, List.map_append, hvalues]
  cases row.key <;> rfl

theorem eq_some_of_resolve {index : Nat} {value : Datum}
    (h : (Operand.parameter index).resolve params = .ok value) : params[index]? = some value := by
  unfold Operand.resolve at h
  cases hindex : params[index]? with
  | none =>
    simp only [hindex] at h
    cases h
  | some found =>
    simp only [hindex] at h
    cases h
    rfl

/-- The operands that are parameters are bound, in their order. -/
theorem bound_operands {operands : List Operand} {given : List Datum}
    (h : (operands.filter fun
      | .parameter _ => true
      | .literal _ => false).mapM (Operand.resolve params) = .ok given) :
    given = (operands.map (Operand.written params)).filterMap Prod.snd ∧
      ∀ operand ∈ operands, (operand.written params).1 = "?" ↔
        (operand.written params).2.isSome := by
  induction operands generalizing given with
  | nil =>
    rw [List.filter_nil, List.mapM_nil] at h
    cases h
    exact ⟨rfl, fun _ hmem => absurd hmem List.not_mem_nil⟩
  | cons operand operands ih =>
    cases operand with
    | literal d =>
      rw [List.filter_cons_of_neg Bool.false_ne_true] at h
      obtain ⟨hgiven, hmarked⟩ := ih h
      refine ⟨hgiven, fun operand hmem => ?_⟩
      rcases List.mem_cons.1 hmem with rfl | hmem
      · exact ⟨fun heq => absurd heq d.literal_ne_mark, fun h => by cases h⟩
      · exact hmarked operand hmem
    | parameter index =>
      rw [List.filter_cons_of_pos rfl, List.mapM_cons] at h
      obtain ⟨value, hvalue, h⟩ := exists_of_bind_eq_ok h
      obtain ⟨rest, hrest, h⟩ := exists_of_bind_eq_ok h
      cases h
      obtain ⟨hgiven, hmarked⟩ := ih hrest
      have hindex := eq_some_of_resolve hvalue
      refine ⟨?_, fun operand hmem => ?_⟩
      · rw [List.map_cons, Operand.written, hindex, List.filterMap_cons, hgiven]
      · rcases List.mem_cons.1 hmem with rfl | hmem
        · rw [Operand.written, hindex]
          exact ⟨fun _ => rfl, fun _ => rfl⟩
        · exact hmarked operand hmem

theorem InsertRow.bound_eq {bound : List Datum} (h : row.bound params = .ok bound) :
    bound = (row.written params).filterMap Prod.snd ∧ row.Marked params := by
  unfold InsertRow.bound at h
  obtain ⟨given, hgiven, h⟩ := exists_of_bind_eq_ok h
  cases h
  obtain ⟨rfl, hmarked⟩ := bound_operands hgiven
  refine ⟨?_, fun value hvalue => ?_⟩
  · rw [InsertRow.written, List.filterMap_append]
    cases row.key <;> rfl
  · rw [InsertRow.written, List.mem_append] at hvalue
    rcases hvalue with hvalue | hvalue
    · obtain ⟨operand, hoperand, rfl⟩ := List.mem_map.1 hvalue
      exact hmarked operand hoperand
    · cases hkey : row.key with
      | none =>
        rw [hkey] at hvalue
        cases hvalue
      | some key =>
        rw [hkey] at hvalue
        rw [List.mem_singleton.1 hvalue]
        exact ⟨fun _ => rfl, fun _ => rfl⟩

/-- The statement of a node is made of its rows. -/
theorem insertUnit_eq {columns : List String} {rows : List InsertRow} {unit : RouteUnit}
    (h : insertUnit columns params node rows = .ok unit) :
    unit = physicalInsert columns params node rows ∧ ∀ row ∈ rows, row.Marked params := by
  unfold insertUnit at h
  obtain ⟨bound, hbound, h⟩ := exists_of_bind_eq_ok h
  cases h
  have hvalues : bound = rows.map fun row => (row.written params).filterMap Prod.snd :=
    mapM_eq_map hbound fun row _ values hrow => (InsertRow.bound_eq hrow).1
  have htexts : rows.map (·.texts) = rows.map fun row => (row.written params).map Prod.fst :=
    List.map_congr_left fun row _ => row.texts_eq params
  refine ⟨?_, fun row hrow => ?_⟩
  · rw [physicalInsert, hvalues, htexts, List.flatMap_def]
  · obtain ⟨values, hrow⟩ := exists_of_mapM hbound hrow
    exact (InsertRow.bound_eq hrow).2

/-! ## The nodes of a row -/

/-- The value of a row in a column of the physical insert: what its operand stands for, or the drawn
key behind the last operand. -/
def InsertRow.Holds (params : List Datum) (row : InsertRow) (column : Nat) (value : Datum) : Prop :=
  (∃ operand, row.values[column]? = some operand ∧ operand.resolve params = .ok value) ∨
    row.values[column]? = none ∧ row.key = some value

/-- The nodes that store a row of a table, given the columns of the physical insert. -/
inductive InsertRow.Home (rule : ShardingRule) (t : TableRule) (table : String)
    (params : List Datum) (columns : List String) (row : InsertRow) : List DataNode → Prop
  /-- A broadcast table has every row on every node. -/
  | everywhere : rule.isBroadcast table = true → Home rule t table params columns row t.nodes
  /-- The value of the sharding column chooses the node. -/
  | byValue {s : Strategy} {column : Nat} {value : Datum} {node : DataNode} :
      rule.isBroadcast table = false → t.strategy = some s →
      columns.findIdx? (sameName · s.column) = some column → row.Holds params column value →
      value.isNull = false → t.nodes[s.algorithm.slot t.nodes.length value]? = some node →
      Home rule t table params columns row [node]
  /-- Without a sharding column there is a single node. -/
  | only {node : DataNode} : rule.isBroadcast table = false →
      (∀ s, t.strategy = some s → columns.findIdx? (sameName · s.column) = none) →
      t.nodes = [node] → Home rule t table params columns row [node]

namespace InsertRow.Home

variable {rule : ShardingRule} {t : TableRule} {table : String} {columns : List String}
  {home : List DataNode}

theorem subset (h : row.Home rule t table params columns home) : ∀ node ∈ home, node ∈ t.nodes := by
  intro node hnode
  cases h with
  | everywhere => exact hnode
  | byValue _ _ _ _ _ hlookup =>
    rw [List.mem_singleton.1 hnode]
    exact List.mem_of_getElem? hlookup
  | only _ _ hnodes => rwa [hnodes]

theorem nodup (h : row.Home rule t table params columns home) (hnodes : t.nodes.Nodup) :
    home.Nodup := by
  cases h with
  | everywhere => exact hnodes
  | byValue => exact List.nodup_singleton _
  | only => exact List.nodup_singleton _

theorem ne_nil (h : row.Home rule t table params columns home) (hnodes : t.nodes ≠ []) :
    home ≠ [] := by
  cases h with
  | everywhere => exact hnodes
  | byValue => exact List.cons_ne_nil _ _
  | only => exact List.cons_ne_nil _ _

theorem eq_nodes (h : row.Home rule t table params columns home)
    (hbroadcast : rule.isBroadcast table = true) : home = t.nodes := by
  cases h with
  | everywhere => rfl
  | byValue hnot => exact absurd hbroadcast (by rw [hnot]; exact Bool.false_ne_true)
  | only hnot => exact absurd hbroadcast (by rw [hnot]; exact Bool.false_ne_true)

theorem exists_eq_singleton (h : row.Home rule t table params columns home)
    (hbroadcast : rule.isBroadcast table = false) : ∃ node, home = [node] := by
  cases h with
  | everywhere hyes => exact absurd hyes (by rw [hbroadcast]; exact Bool.false_ne_true)
  | byValue => exact ⟨_, rfl⟩
  | only => exact ⟨_, rfl⟩

end InsertRow.Home

theorem InsertRow.holds_of_value {table : String} {column : Nat} {value : Datum}
    (h : row.value table params column = .ok value) : row.Holds params column value := by
  unfold InsertRow.value at h
  unfold InsertRow.Holds
  cases hvalue : row.values[column]? with
  | some operand =>
    simp only [hvalue] at h
    exact .inl ⟨operand, rfl, eq_ok_of_mapError h⟩
  | none =>
    cases hkey : row.key with
    | none =>
      simp only [hvalue, hkey] at h
      cases h
    | some key =>
      simp only [hvalue, hkey] at h
      cases h
      exact .inr ⟨rfl, rfl⟩

/-- The nodes that routing finds for a row are those that store it. -/
theorem InsertRow.home_of_nodes {rule : ShardingRule} {t : TableRule} {table : String}
    {columns : List String} {home : List DataNode} (ht : rule.table? table = some t)
    (h : row.nodes rule table params t.nodes ((rule.shardingColumn? table).bind fun column =>
      columns.findIdx? (sameName · column)) = .ok home) :
    row.Home rule t table params columns home := by
  have hcolumn := ShardingRule.shardingColumn?_eq ht
  unfold InsertRow.nodes at h
  by_cases hbroadcast : rule.isBroadcast table = true
  · rw [if_pos hbroadcast] at h
    cases h
    exact .everywhere hbroadcast
  · rw [if_neg hbroadcast, hcolumn] at h
    have hnot : rule.isBroadcast table = false := Bool.eq_false_iff.2 hbroadcast
    have hsingle : (if t.nodes.length = 1 then Except.ok t.nodes
        else .error (Error.routing (.noShardingColumn table))) = .ok home →
        ∃ node, t.nodes = [node] ∧ home = [node] := by
      intro h
      by_cases hlength : t.nodes.length = 1
      · rw [if_pos hlength] at h
        obtain ⟨node, hnode⟩ := List.length_eq_one_iff.1 hlength
        cases h
        exact ⟨node, hnode, hnode⟩
      · rw [if_neg hlength] at h
        cases h
    cases hs : t.strategy with
    | none =>
      rw [hs] at h
      obtain ⟨node, hnodes, rfl⟩ := hsingle h
      exact .only hnot (fun s hsome => by rw [hs] at hsome; cases hsome) hnodes
    | some s =>
      rw [hs] at h
      dsimp only [Option.map_some, Option.bind_some] at h
      cases hc : columns.findIdx? (sameName · s.column) with
      | none =>
        rw [hc] at h
        obtain ⟨node, hnodes, rfl⟩ := hsingle h
        refine .only hnot (fun s' hsome => ?_) hnodes
        rw [hs] at hsome
        cases hsome
        exact hc
      | some column =>
        rw [hc] at h
        obtain ⟨value, hvalue, h⟩ := exists_of_bind_eq_ok h
        obtain ⟨nodes, hnodes, h⟩ := exists_of_bind_eq_ok h
        have hroute := eq_ok_of_mapError hnodes
        rw [ShardingRule.route_eq ht] at hroute
        obtain ⟨hnull, node, rfl, hnode⟩ := TableRule.route_singleton hs hroute
        cases h
        exact .byValue hnot hs hc (holds_of_value hvalue) hnull hnode

end Sharding
