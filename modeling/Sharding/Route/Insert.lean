import Sharding.Keys.Generator
import Sharding.Route.Target

/-!
# Routing inserts

The rows of an insert are spread over the data nodes of its table, and every node that gets rows
becomes one physical insert.  A broadcast table gets all rows on every node; otherwise the value of
the sharding column chooses the node of a row.

When the insert does not list its generated column, a key is drawn for every row, and the column is
appended: each row gets its own key as its last value, bound as a parameter.  Drawing comes before
everything that can fail for the sake of the rule.
-/

namespace Sharding

/-- The keys of an insert's generated column.  Keys that the insert gives are looked up; keys that
it does not give are drawn, one for each row. -/
def Insert.keys {W : Type} (rule : ShardingRule) (source : KeySource W) (i : Insert)
    (params : List Datum) : Act W (Option KeyInfo) :=
  match i.keyColumn with
  | none => return none
  | some column =>
    match i.columnPosition? column with
    | some position => do
      let values ← Act.ofExcept <| Except.mapError Error.routing <|
        (i.rows.filterMap (·[position]?)).mapM (Operand.resolve params)
      return some { column, values, generated := false }
    | none => do
      let values ← i.rows.mapM fun _ => source.draw (rule.generator? i.table)
      return some { column, values, generated := true }

/-- One row of an insert: its position, its values, and the key drawn for it. -/
structure InsertRow where
  position : Nat
  values : List Operand
  key : Option Datum
deriving DecidableEq

/-- The rows of an insert, with their keys when these were drawn. -/
def Insert.keyedRows (i : Insert) (info : Option KeyInfo) : List InsertRow :=
  i.rows.zipIdx.map fun (values, position) =>
    { position, values
      key := (info.filter (·.generated)).bind (·.values[position]?) }

/-- The columns of the physical inserts: a column whose keys were drawn comes last. -/
def Insert.fullColumns (i : Insert) (info : Option KeyInfo) : List String :=
  i.columns ++ ((info.filter (·.generated)).map (·.column)).toList

/-- The value of a row in a column of the physical insert. -/
def InsertRow.value (row : InsertRow) (table : String) (params : List Datum) (column : Nat) :
    Except Error Datum :=
  match row.values[column]?, row.key with
  | some v, _ => (v.resolve params).mapError .routing
  | none, some key => .ok key
  | none, none => .error (.bug (.insertColumn table column))

/-- The nodes that store a row.  `shardingColumn` is the position of the sharding column among the
columns of the physical insert. -/
def InsertRow.nodes (rule : ShardingRule) (table : String) (params : List Datum)
    (all : List DataNode) (shardingColumn : Option Nat) (row : InsertRow) :
    Except Error (List DataNode) :=
  if rule.isBroadcast table then .ok all
  else
    match shardingColumn with
    | some column => do
      let value ← row.value table params column
      let nodes ← (rule.route table (.list [value])).mapError .routing
      if nodes.length ≠ 1 then .error (.routing (.rowTargets row.position table nodes.length))
      else return nodes
    | none =>
      if all.length = 1 then .ok all else .error (.routing (.noShardingColumn table))

/-- Adds a row to the rows of a node.  A node without rows so far comes last. -/
def addToNode (row : InsertRow) (node : DataNode) :
    List (DataNode × List InsertRow) → List (DataNode × List InsertRow)
  | [] => [(node, [row])]
  | (n, rows) :: rest =>
    if n = node then (n, rows ++ [row]) :: rest else (n, rows) :: addToNode row node rest

/-- The rows of each node, the nodes in the order of their first row. -/
def groupByNode (placed : List (InsertRow × List DataNode)) : List (DataNode × List InsertRow) :=
  placed.foldl (fun groups (row, nodes) =>
    nodes.foldl (fun groups node => addToNode row node groups) groups) []

/-- The text of a value in a physical insert: a parameter stays a parameter. -/
def Operand.insertText : Operand → String
  | .parameter _ => "?"
  | .literal d => d.literal

/-- The texts of the values of a row in a physical insert. -/
def InsertRow.texts (row : InsertRow) : List String :=
  row.values.map Operand.insertText ++ (row.key.map fun _ => "?").toList

/-- The parameters of a row in a physical insert, one for each of its question marks. -/
def InsertRow.bound (params : List Datum) (row : InsertRow) : Except RoutingCause (List Datum) := do
  let given ← (row.values.filter fun
    | .parameter _ => true
    | .literal _ => false).mapM (Operand.resolve params)
  return given ++ row.key.toList

/-- The physical insert of the rows of one node. -/
def insertUnit (columns : List String) (params : List Datum) (node : DataNode)
    (rows : List InsertRow) : Except RoutingCause RouteUnit := do
  let bound ← rows.mapM (InsertRow.bound params)
  return { shard := node.shard
           sql := Sql.insertText node.table columns (rows.map (·.texts))
           params := bound.flatten }

/-- The first row whose length is not the number of columns. -/
def Insert.raggedRow? (i : Insert) : Option (List Operand × Nat) :=
  i.rows.zipIdx.find? fun (row, _) => row.length ≠ i.columns.length

/-- The physical inserts of an insert whose keys are known. -/
def Insert.units (rule : ShardingRule) (i : Insert) (params : List Datum)
    (info : Option KeyInfo) : Except Error (List RouteUnit) := do
  let columns := i.fullColumns info
  let all ← (rule.dataNodes i.table).mapError .routing
  let shardingColumn := (rule.shardingColumn? i.table).bind fun column =>
    columns.findIdx? (sameName · column)
  let placed ← (i.keyedRows info).mapM fun row => do
    return (row, ← row.nodes rule i.table params all shardingColumn)
  ((groupByNode placed).mapM fun (node, rows) => insertUnit columns params node rows).mapError
    .routing

/-- The physical inserts of an insert, and the keys of its generated column. -/
def Insert.route {W : Type} (rule : ShardingRule) (source : KeySource W) (i : Insert)
    (params : List Datum) : Act W (List RouteUnit × Option KeyInfo) := do
  if i.rows.isEmpty then Act.fail (.routing (.insertWithoutRows i.table))
  match i.raggedRow? with
  | some (row, position) =>
    Act.fail (.routing (.raggedRow position row.length i.columns.length))
  | none =>
    let info ← i.keys rule source params
    let units ← Act.ofExcept (i.units rule params info)
    return (units, info)

end Sharding
