import Sharding.Proofs.Route.Lookup

/-!
# Nodes that survive

A condition on the sharding column of a table hits some of its nodes.  `ShardingRule.survivors` are
the nodes of a table that every such condition hits, in the order of the configuration.  As long as
all conditions have values that can be routed, they are what a query is routed to
(`ShardingRule.nodesFor_of_survivors`), and a table without survivors is an error
(`ShardingRule.nodesFor_of_none`).

A statement with several tables takes a node of each.  `Choice` is such a choice on one shard, and
`Choice.target` is the target that it makes.
-/

namespace Sharding

namespace ShardingRule

variable (r : ShardingRule) (conditions : List Condition) (params : List Datum)

/-- The conditions on the sharding column of a table.  Broadcast tables and tables without such a
column have none. -/
def conditionsOn (table : String) : List Condition :=
  if r.isBroadcast table then []
  else
    match r.shardingColumn? table with
    | none => []
    | some column =>
      conditions.filter fun c => sameName c.table table && sameName c.column column

/-- The nodes that a condition on a table hits. -/
def hits (table : String) (c : Condition) : Except RoutingCause (List DataNode) := do
  r.route table (← c.test.resolve params)

/-- Every condition on the sharding column has values, and they have nodes. -/
def Resolvable (table : String) : Prop :=
  ∀ c ∈ r.conditionsOn conditions table, ∃ hit, r.hits params table c = .ok hit

/-- Whether a condition on a table hits a node. -/
def hitsNode (table : String) (node : DataNode) (c : Condition) : Bool :=
  match r.hits params table c with
  | .ok hit => decide (node ∈ hit)
  | .error _ => false

/-- Whether every condition on the sharding column hits a node. -/
def survives (table : String) (node : DataNode) : Bool :=
  (r.conditionsOn conditions table).all (r.hitsNode params table node)

/-- The nodes of a table that survive its conditions, in the order of the configuration. -/
def survivors (table : String) : List DataNode :=
  match r.dataNodes table with
  | .ok nodes => nodes.filter (r.survives conditions params table)
  | .error _ => []

variable {r conditions params} {table : String} {tables : List String} {nodes : List DataNode}

theorem survivors_eq (h : r.dataNodes table = .ok nodes) :
    r.survivors conditions params table = nodes.filter (r.survives conditions params table) := by
  rw [survivors, h]

/-- Conditions that can be resolved leave the nodes that all of them hit. -/
theorem narrows_eq {cs : List Condition}
    (h : ∀ c ∈ cs, ∃ hit, r.hits params table c = .ok hit) (start : List DataNode) :
    cs.foldlM (r.narrow table params) start =
      .ok (start.filter fun node => cs.all (r.hitsNode params table node)) := by
  induction cs generalizing start with
  | nil =>
    simp only [List.all_nil, List.filter_true]
    rfl
  | cons c cs ih =>
    obtain ⟨hit, hhit⟩ := h c List.mem_cons_self
    have hnarrow : r.narrow table params start c = .ok (start.filter (· ∈ hit)) := by
      obtain ⟨wanted, hwanted, hroute⟩ := exists_of_bind_eq_ok hhit
      rw [narrow, hwanted]
      show (r.route table wanted >>= _) = _
      rw [hroute]
      rfl
    have hhits : ∀ node, r.hitsNode params table node c = decide (node ∈ hit) := fun node => by
      rw [hitsNode, hhit]
    rw [List.foldlM_cons, hnarrow]
    show cs.foldlM (r.narrow table params) (start.filter (· ∈ hit)) = _
    rw [ih (fun c hc => h c (List.mem_cons_of_mem _ hc)), List.filter_filter]
    refine congrArg Except.ok (List.filter_congr fun node _ => ?_)
    rw [List.all_cons, hhits, Bool.and_comm]

theorem dataNodes_ne_nil (h : r.dataNodes table = .ok nodes) : nodes ≠ [] := by
  obtain ⟨t, -, rfl, hne⟩ := table_of_dataNodes h
  exact hne

/-- What a query is routed to: all nodes, or those that the conditions on the sharding column
leave. -/
theorem nodesFor_eq (hnodes : r.dataNodes table = .ok nodes)
    (hresolvable : r.Resolvable conditions params table) :
    r.survivors conditions params table = nodes ∧
        r.nodesFor table conditions params = .ok nodes ∨
      ∃ column, r.nodesFor table conditions params =
        if (r.survivors conditions params table).isEmpty then .error (.noMatchingNode table column)
        else .ok (r.survivors conditions params table) := by
  unfold Resolvable at hresolvable
  rw [survivors_eq hnodes]
  unfold survives nodesFor
  rw [hnodes]
  by_cases hbroadcast : r.isBroadcast table = true
  · rw [conditionsOn, if_pos hbroadcast]
    refine .inl ⟨List.filter_eq_self.2 fun _ _ => rfl, ?_⟩
    show (if r.isBroadcast table = true then Except.ok nodes else _) = _
    rw [if_pos hbroadcast]
  · cases hcolumn : r.shardingColumn? table with
    | none =>
      rw [conditionsOn, if_neg hbroadcast, hcolumn]
      refine .inl ⟨List.filter_eq_self.2 fun _ _ => rfl, ?_⟩
      show (if r.isBroadcast table = true then Except.ok nodes else _) = _
      rw [if_neg hbroadcast]
      rfl
    | some column =>
      rw [conditionsOn, if_neg hbroadcast, hcolumn] at hresolvable ⊢
      refine .inr ⟨column, ?_⟩
      show (if r.isBroadcast table = true then Except.ok nodes else _) = _
      rw [if_neg hbroadcast]
      dsimp only at hresolvable ⊢
      rw [narrows_eq hresolvable]
      rfl

theorem nodesFor_of_survivors (hnodes : r.dataNodes table = .ok nodes)
    (hresolvable : r.Resolvable conditions params table)
    (hkept : r.survivors conditions params table ≠ []) :
    r.nodesFor table conditions params = .ok (r.survivors conditions params table) := by
  rcases nodesFor_eq hnodes hresolvable with ⟨hall, hok⟩ | ⟨column, hfor⟩
  · rw [hall, hok]
  · rw [hfor, if_neg (mt List.isEmpty_iff.1 hkept)]

theorem nodesFor_of_none (hnodes : r.dataNodes table = .ok nodes)
    (hresolvable : r.Resolvable conditions params table)
    (hnone : r.survivors conditions params table = []) :
    ∃ column, r.nodesFor table conditions params = .error (.noMatchingNode table column) := by
  rcases nodesFor_eq hnodes hresolvable with ⟨hall, -⟩ | ⟨column, hfor⟩
  · exact absurd (hall.symm.trans hnone) (dataNodes_ne_nil hnodes)
  · exact ⟨column, by rw [hfor, if_pos (List.isEmpty_iff.2 hnone)]⟩

/-! ## Several tables -/

/-- The tables of a statement with their nodes, if each of them keeps some. -/
theorem entries_of_survivors (h : ∀ t ∈ tables, r.nodesFor t conditions params =
      .ok (r.survivors conditions params t)) :
    (tables.mapM fun table => do
        return TableNodes.mk table (← r.nodesFor table conditions params)) =
      .ok (tables.map fun t => ⟨t, r.survivors conditions params t⟩) := by
  refine mapM_eq_ok_iff.2 (List.forall₂_map_right_iff.2 (List.forall₂_same.2 fun t ht => ?_))
  rw [h t ht]
  rfl

/-- Several tables are paired when they form a binding group, and otherwise they take all
combinations. -/
theorem targets_of_survivors {first : String} {others : List String} (hothers : others ≠ [])
    (h : ∀ t ∈ first :: others, r.nodesFor t conditions params =
      .ok (r.survivors conditions params t)) :
    r.targets (first :: others) conditions params =
      if r.isBinding (first :: others) = true then
        r.bindingTargets ⟨first, r.survivors conditions params first⟩
          (others.map fun t => ⟨t, r.survivors conditions params t⟩)
      else
        productTargets ⟨first, r.survivors conditions params first⟩
          (others.map fun t => ⟨t, r.survivors conditions params t⟩) := by
  obtain ⟨second, rest, rfl⟩ := List.exists_cons_of_ne_nil hothers
  rw [targets, entries_of_survivors h]
  rfl

end ShardingRule

/-- A node for each of some tables, all of them on one shard. -/
structure Choice where
  shard : String
  nodes : List DataNode
deriving DecidableEq

namespace Choice

/-- The choice has a node for each table that is right for it, and all of them are on the shard. -/
def Of (right : String → DataNode → Prop) (tables : List String) (c : Choice) : Prop :=
  List.Forall₂ (fun t node => right t node ∧ node.shard = c.shard) tables c.nodes

/-- The target of a choice. -/
def target (tables : List String) (c : Choice) : RouteTarget :=
  ⟨c.shard, List.zipWith (fun t node => (t, node.table)) tables c.nodes⟩

/-- A choice has a node that is right for any of the tables. -/
theorem Of.exists_node {right : String → DataNode → Prop} {tables : List String} {c : Choice}
    (h : c.Of right tables) {t : String} (ht : t ∈ tables) :
    ∃ node, right t node ∧ node.shard = c.shard := by
  obtain ⟨shard, nodes⟩ := c
  unfold Of at h
  dsimp only at h ⊢
  induction h with
  | nil => cases ht
  | cons hnode _ ih =>
    rcases List.mem_cons.1 ht with rfl | ht
    · exact ⟨_, hnode⟩
    · exact ih ht

/-- Different choices make different targets. -/
theorem eq_of_target {right right' : String → DataNode → Prop} {tables : List String}
    {c c' : Choice} (h : c.Of right tables) (h' : c'.Of right' tables)
    (htarget : c.target tables = c'.target tables) : c = c' := by
  obtain ⟨shard, nodes⟩ := c
  obtain ⟨shard', nodes'⟩ := c'
  obtain ⟨hshard, htables⟩ := RouteTarget.mk.inj htarget
  obtain rfl : shard = shard' := hshard
  unfold Of at h h'
  dsimp only at h h' htables
  clear htarget
  congr
  induction h generalizing nodes' with
  | nil =>
    cases h'
    rfl
  | cons hnode _ ih =>
    cases h' with
    | cons hnode' hrest' =>
      obtain ⟨hpair, hrest⟩ := List.cons.inj htables
      rw [ih _ hrest' hrest,
        DataNode.eq_of (hnode.2.trans hnode'.2.symm) (Prod.mk.inj hpair).2]

end Choice

end Sharding
