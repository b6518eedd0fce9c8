import Sharding.Sql.Render

/-!
# Query shapes

A `QueryShape` says what the rows of a query mean: the projections of its select list, its sort
and group items, and its page.  A list of projections that is empty stands for a select list that
names all columns with a star.

A query that runs on several shards selects more columns than it was asked for, so that the
results can be merged: the sort and group items that are not projected, and for each average the
count and the sum it is made of.  `QueryShape.derivedColumns` lists these columns with the aliases
under which the shards report them, and `QueryShape.resolveLabel` says under which label a sort or
group item is to be found in a shard's result.
-/

namespace Sharding

/-- An aggregate function. -/
inductive Aggregate where
  | count
  | sum
  | max
  | min
  | avg
deriving DecidableEq

/-- The name of an aggregate function inside a statement. -/
def Aggregate.name : Aggregate → String
  | count => "COUNT"
  | sum => "SUM"
  | max => "MAX"
  | min => "MIN"
  | avg => "AVG"

/-- The call of an aggregate function inside a statement. -/
def Aggregate.call (f : Aggregate) (arg : String) : String :=
  f.name ++ "(" ++ arg ++ ")"

/-- One item of a select list. -/
inductive Projection where
  | column (expression : String) (givenName : Option String)
  | aggregate (function : Aggregate) (arg : String) (givenName : Option String)
deriving DecidableEq

namespace Projection

/-- The expression of a projection. -/
def expression : Projection → String
  | column expression _ => expression
  | aggregate f arg _ => f.call arg

/-- The alias of a projection. -/
def givenName? : Projection → Option String
  | column _ name | aggregate _ _ name => name

/-- The label under which a shard reports a projection. -/
def label (p : Projection) : String :=
  p.givenName?.getD p.expression

/-- Whether a projection is known by a name, as its label or as its expression. -/
def isNamed (p : Projection) (name : String) : Bool :=
  sameName p.label name || sameName p.expression name

/-- Whether a projection is an aggregate. -/
def isAggregate : Projection → Bool
  | aggregate _ _ _ => true
  | column _ _ => false

end Projection

/-- The direction of a sort item. -/
inductive Direction where
  | asc
  | desc
deriving DecidableEq

/-- Where a sort item places NULL, whatever its direction. -/
inductive NullPlacement where
  | first
  | last
deriving DecidableEq

/-- A sort or group item. -/
structure SortItem where
  column : String
  direction : Direction
  nulls : NullPlacement
deriving DecidableEq

/-- Without a wish for NULL it sorts below all values: first in ascending order, last in
descending order. -/
def Direction.defaultNulls : Direction → NullPlacement
  | asc => .first
  | desc => .last

/-- What the rows of a query mean. -/
structure QueryShape where
  projections : List Projection := []
  orderBy : List SortItem := []
  groupBy : List SortItem := []
  page : Option Sql.Pagination := none
deriving DecidableEq

/-- The alias of the count that belongs to the average at a position of the select list. -/
def countAlias (position : Nat) : String :=
  "AVG_DERIVED_COUNT_" ++ natText position

/-- The alias of the sum that belongs to the average at a position of the select list. -/
def sumAlias (position : Nat) : String :=
  "AVG_DERIVED_SUM_" ++ natText position

namespace QueryShape

/-- Whether the query computes an aggregate. -/
def hasAggregate (q : QueryShape) : Bool :=
  q.projections.any (·.isAggregate)

/-- Whether the rows of the query are groups. -/
def isGrouped (q : QueryShape) : Bool :=
  !q.groupBy.isEmpty || q.hasAggregate

/-- The number of columns that the caller sees. -/
def visibleWidth (q : QueryShape) : Nat :=
  q.projections.length

/-- The labels of the columns that the caller sees. -/
def visibleLabels (q : QueryShape) : List String :=
  q.projections.map (·.label)

/-- The first projection known by a name. -/
def projectionFor? (q : QueryShape) (name : String) : Option Projection :=
  q.projections.find? (·.isNamed name)

/-- The columns for those items that no projection carries, each with the alias of the item's
position.  A star carries every item. -/
def hiddenItems (q : QueryShape) (aliasOf : Nat → String) (items : List SortItem) :
    List Sql.DerivedColumn :=
  items.zipIdx.filterMap fun (item, i) =>
    if q.projections.isEmpty || (q.projectionFor? item.column).isSome then none
    else some ⟨item.column, aliasOf i⟩

/-- The count and the sum of each average. -/
def averageParts (q : QueryShape) : List Sql.DerivedColumn :=
  q.projections.zipIdx.flatMap fun (p, i) =>
    match p with
    | .aggregate .avg arg _ =>
      [⟨Aggregate.count.call arg, countAlias i⟩, ⟨Aggregate.sum.call arg, sumAlias i⟩]
    | _ => []

/-- The columns that a query on several shards selects in addition: hidden group items, hidden
sort items, each expression once, and the parts of the averages. -/
def derivedColumns (q : QueryShape) : List Sql.DerivedColumn :=
  let hidden := q.hiddenItems (fun i => "GROUP_BY_DERIVED_" ++ natText i) q.groupBy ++
    q.hiddenItems (fun i => "ORDER_BY_DERIVED_" ++ natText i) q.orderBy
  distinctBy (fun a b => sameName a.expression b.expression) hidden ++ q.averageParts

/-- The label under which an item is found in the result of a shard: that of a projection known
by its name, else the alias of a derived column with that expression, else its own name. -/
def resolveLabel (q : QueryShape) (column : String) : String :=
  match q.projectionFor? column with
  | some p => p.label
  | none =>
    match q.derivedColumns.find? fun d => sameName d.expression column with
    | some d => d.label
    | none => column

end QueryShape

end Sharding
