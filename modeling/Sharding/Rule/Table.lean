import Sharding.Act
import Sharding.Rule.Algorithm
import Sharding.Text.Name

/-!
# Rules of single tables

A logical table is stored on data nodes: actual tables, each on one shard.  `TableRule` lists them
in the order of the configuration and says how rows are spread over them.

`TableRule.route` answers which nodes can hold rows with given values of the sharding column, in the
order of the configuration.  A table without a strategy can hold every row on every node.  A range
narrows the nodes only when the strategy is `modulo`, both bounds are integers and the range has
fewer values than there are nodes.
-/

namespace Sharding

/-- One actual table on one shard. -/
structure DataNode where
  shard : String
  table : String
deriving DecidableEq

/-- The name of a data node. -/
def DataNode.text (n : DataNode) : String :=
  n.shard ++ "." ++ n.table

/-- What is known about the sharding column.  The bounds of a range are inclusive, and a missing
one does not bound. -/
inductive ShardingValue where
  | list (values : List Datum)
  | range (lower upper : Option Datum)
deriving DecidableEq

/-- The sharding column of a table, and how its values choose a node. -/
structure Strategy where
  column : String
  algorithm : Algorithm
deriving DecidableEq

/-- Where the rows of a logical table are stored. -/
structure TableRule where
  name : String
  nodes : List DataNode
  strategy : Option Strategy := none
  /-- The number of the key generator for the table's generated column. -/
  generator : Option Nat := none
deriving DecidableEq

/-- The elements of a list at the given positions, in the order of the list. -/
def atPositions {α : Type} (positions : List Nat) (xs : List α) : List α :=
  xs.zipIdx.filterMap fun (x, i) => if i ∈ positions then some x else none

namespace TableRule

/-- The slots that a list of values hits.  NULL has no slot. -/
def slots (t : TableRule) (a : Algorithm) (values : List Datum) :
    Except RoutingCause (List Nat) :=
  values.mapM fun v =>
    if v.isNull then .error (.nullShardingValue t.name) else .ok (a.slot t.nodes.length v)

/-- The integers from `lo` to `hi`. -/
def integersBetween (lo hi : Int) : List Int :=
  (List.range (hi - lo + 1).toNat).map fun (i : Nat) => lo + i

/-- The slots that a range hits.  A range of at least as many steps as there are slots hits them
all. -/
def rangeSlots (t : TableRule) (a : Algorithm) (lower upper : Option Datum) : List Nat :=
  let n := t.nodes.length
  match a, lower.bind Datum.toInt64?, upper.bind Datum.toInt64? with
  | .modulo, some lo, some hi =>
    let width := hi.toInt - lo.toInt
    if width < 0 then []
    else if width < n then
      (integersBetween lo.toInt hi.toInt).map fun v => (v % (n : Int)).toNat
    else List.range n
  | _, _, _ => List.range n

/-- The nodes that can hold rows with the given values, in the order of the configuration. -/
def route (t : TableRule) (value : ShardingValue) : Except RoutingCause (List DataNode) :=
  if t.nodes.isEmpty then .error (.noDataNodes t.name)
  else
    match t.strategy with
    | none => .ok t.nodes
    | some s =>
      match value with
      | .list values => do
        let slots ← t.slots s.algorithm values
        return atPositions slots t.nodes
      | .range lower upper => .ok (atPositions (t.rangeSlots s.algorithm lower upper) t.nodes)

end TableRule

/-- Data nodes `prefix_0`, `prefix_1`, … on the given shards in turn.  Without shards there is no
place for a table. -/
def spreadNodes (tablePrefix : String) (shards : List String) (count : Nat) :
    Option (List DataNode) :=
  (List.range count).mapM fun i =>
    shards[i % shards.length]?.map fun shard => ⟨shard, tablePrefix ++ "_" ++ natText i⟩

end Sharding
