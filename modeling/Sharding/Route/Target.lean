import Sharding.Route.Basic
import Sharding.Rule.Basic

/-!
# Targets of a statement

A target is a shard with an actual table for each logical table of a statement.  A statement runs
once on each of its targets.

`nodesFor` are the data nodes of one table that survive every condition on its sharding column.
`targets` joins the nodes of all tables of a statement:

* the nodes of a single table are the targets;
* tables of one binding group are paired position by position (`bindingTargets`);
* other tables take every combination of nodes that share a shard (`productTargets`).
-/

namespace Sharding

/-- A shard, and the actual table on it of each logical table. -/
structure RouteTarget where
  shard : String
  tables : List (String × String)
deriving DecidableEq

/-- A logical table and some of its data nodes. -/
structure TableNodes where
  table : String
  nodes : List DataNode
deriving DecidableEq

/-- The values of a sharding column that pass a test. -/
def ColumnTest.resolve (params : List Datum) : ColumnTest → Except RoutingCause ShardingValue
  | equal v => do return .list [← v.resolve params]
  | oneOf vs => do return .list (← vs.mapM (Operand.resolve params))
  | between lower upper => do
    let lower ← lower.mapM (Operand.resolve params)
    let upper ← upper.mapM (Operand.resolve params)
    return .range lower upper

namespace ShardingRule

variable (r : ShardingRule)

/-- The nodes that pass one condition on the sharding column. -/
def narrow (table : String) (params : List Datum) (nodes : List DataNode) (c : Condition) :
    Except RoutingCause (List DataNode) := do
  let value ← c.test.resolve params
  let hit ← r.route table value
  return nodes.filter (· ∈ hit)

/-- The data nodes of a table that pass every condition on its sharding column. -/
def nodesFor (table : String) (conditions : List Condition) (params : List Datum) :
    Except RoutingCause (List DataNode) := do
  let all ← r.dataNodes table
  if r.isBroadcast table then return all
  match r.shardingColumn? table with
  | none => return all
  | some column =>
    let relevant := conditions.filter fun c => sameName c.table table && sameName c.column column
    let nodes ← relevant.foldlM (r.narrow table params) all
    if nodes.isEmpty then .error (.noMatchingNode table column) else return nodes

/-- The actual tables of the other tables of a binding group at one position, or nothing when one
of them does not survive its conditions there. -/
def pairedTables (first : String) (shard : String) (position : Nat) :
    List TableNodes → Except RoutingCause (Option (List (String × String)))
  | [] => return some []
  | other :: rest => do
    let all ← r.dataNodes other.table
    match all[position]? with
    | none => .error (.bindingCounts first other.table)
    | some paired =>
      if paired.shard ≠ shard then .error (.bindingShards first other.table position)
      else if paired ∉ other.nodes then return none
      else
        let tables ← pairedTables first shard position rest
        return tables.map ((other.table, paired.table) :: ·)

/-- The target at the position of one node of the first table of a binding group. -/
def bindingTarget (first : String) (all : List DataNode) (others : List TableNodes)
    (node : DataNode) : Except RoutingCause (Option RouteTarget) :=
  match all.idxOf? node with
  | none => return none
  | some position => do
    let tables ← r.pairedTables first node.shard position others
    return tables.map fun tables => ⟨node.shard, (first, node.table) :: tables⟩

/-- The targets of tables of one binding group: one for each position at which every table has a
node that survives its conditions. -/
def bindingTargets (first : TableNodes) (others : List TableNodes) :
    Except RoutingCause (List RouteTarget) := do
  let all ← r.dataNodes first.table
  let targets ← first.nodes.mapM (r.bindingTarget first.table all others)
  match targets.filterMap id with
  | [] => .error .noCommonNode
  | targets => return targets

end ShardingRule

/-- Every way of choosing one node on a shard for each table, the last table varying fastest. -/
def combinationsOn (shard : String) : List TableNodes → List (List (String × String))
  | [] => [[]]
  | t :: rest =>
    (t.nodes.filter (·.shard = shard)).flatMap fun node =>
      (combinationsOn shard rest).map ((t.table, node.table) :: ·)

/-- The targets of unrelated tables: every combination of nodes that share a shard, by the shards
of the first table. -/
def productTargets (first : TableNodes) (others : List TableNodes) :
    Except RoutingCause (List RouteTarget) :=
  let shards := distinct (first.nodes.map (·.shard))
  let targets := shards.flatMap fun shard =>
    (combinationsOn shard (first :: others)).map (RouteTarget.mk shard)
  match targets with
  | [] => .error (.noSharedShard ((first :: others).map (·.table)))
  | targets => .ok targets

namespace ShardingRule

variable (r : ShardingRule)

/-- The targets of a statement with some tables. -/
def targets (tables : List String) (conditions : List Condition) (params : List Datum) :
    Except RoutingCause (List RouteTarget) := do
  let perTable ← tables.mapM fun table => do
    return TableNodes.mk table (← r.nodesFor table conditions params)
  match perTable with
  | [] => .error .noTables
  | [only] => return only.nodes.map fun node => ⟨node.shard, [(only.table, node.table)]⟩
  | first :: others =>
    if r.isBinding tables then r.bindingTargets first others
    else productTargets first others

/-- The targets of a statement without tables: all shards, or the first of them. -/
def tablelessTargets (everywhere : Bool) : Except RoutingCause (List RouteTarget) :=
  match r.shards with
  | [] => .error .noShards
  | shard :: rest =>
    .ok ((if everywhere then shard :: rest else [shard]).map fun shard => ⟨shard, []⟩)

end ShardingRule

end Sharding
