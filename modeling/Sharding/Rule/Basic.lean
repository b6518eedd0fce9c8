import Sharding.Rule.Table

/-!
# Sharding rules

A `ShardingRule` collects the rules of all logical tables, the tables that are copied in full to
every shard, and the groups of tables that are spread alike.  Tables are found by name without
regard to case, and of two rules for one name the later one holds.

The shards of a rule are those of all tables ever added, each once, in the order of their first
appearance.
-/

namespace Sharding

/-- The rules of all logical tables. -/
structure ShardingRule where
  /-- The latest rule comes first. -/
  tables : List TableRule := []
  broadcast : List String := []
  bindingGroups : List (List String) := []
  shards : List String := []
deriving DecidableEq

namespace ShardingRule

/-- Adds the rule of a table. -/
def addTable (r : ShardingRule) (t : TableRule) : ShardingRule :=
  { r with
    tables := t :: r.tables
    shards := distinct (r.shards ++ t.nodes.map (·.shard)) }

/-- Adds a table that is copied in full to each of some shards, under its own name. -/
def addBroadcast (r : ShardingRule) (name : String) (shards : List String) : ShardingRule :=
  let r := r.addTable { name, nodes := shards.map fun shard => ⟨shard, name⟩ }
  { r with broadcast := name :: r.broadcast }

/-- Adds a group of tables whose nodes belong together position by position. -/
def addBindingGroup (r : ShardingRule) (names : List String) : ShardingRule :=
  { r with bindingGroups := r.bindingGroups ++ [names] }

/-- The rule of a table. -/
def table? (r : ShardingRule) (name : String) : Option TableRule :=
  r.tables.find? fun t => sameName t.name name

/-- The rule of a table, or the error that there is none. -/
def table (r : ShardingRule) (name : String) : Except RoutingCause TableRule :=
  match r.table? name with
  | some t => .ok t
  | none => .error (.noRule name)

/-- All data nodes of a table, in the order of the configuration.  There is at least one. -/
def dataNodes (r : ShardingRule) (name : String) : Except RoutingCause (List DataNode) := do
  let t ← r.table name
  if t.nodes.isEmpty then .error (.noDataNodes name) else .ok t.nodes

/-- The sharding column of a table. -/
def shardingColumn? (r : ShardingRule) (name : String) : Option String := do
  let t ← r.table? name
  let s ← t.strategy
  return s.column

/-- The data nodes of a table that can hold rows with the given values. -/
def route (r : ShardingRule) (name : String) (value : ShardingValue) :
    Except RoutingCause (List DataNode) := do
  let t ← r.table name
  t.route value

/-- Whether a table is copied in full to every shard. -/
def isBroadcast (r : ShardingRule) (name : String) : Bool :=
  r.broadcast.any (sameName · name)

/-- Whether some group holds all of the tables. -/
def isBinding (r : ShardingRule) (names : List String) : Bool :=
  r.bindingGroups.any fun group => names.all fun name => group.any (sameName · name)

/-- The number of a table's own key generator. -/
def generator? (r : ShardingRule) (name : String) : Option Nat := do
  let t ← r.table? name
  t.generator

end ShardingRule

end Sharding
