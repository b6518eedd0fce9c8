import Sharding.Merge.Groups
import Sharding.Statement.Basic

/-!
# Planning a merge

The plan of a merge says how the sources become one stream, how many columns of it the caller sees,
and which page of it is read.  All sources have to expose the same columns, up to case.  Statements
other than selects are read one source after the other, as they are.

Sort and group items are looked up among the columns by the label that the query resolves them to,
and then by their own name.  A qualified name is found also without its qualifier.
-/

namespace Sharding

/-- How sources become one stream. -/
inductive MergeKind where
  | concat
  | ordered (keys : List SortKey)
  | grouped (plan : GroupPlan)
deriving DecidableEq

/-- How sources become the rows of a logical query. -/
structure MergePlan where
  columns : List String
  kind : MergeKind
  width : Option Nat
  page : Option Sql.Pagination
deriving DecidableEq

/-- The part of a name behind its last point. -/
def unqualified? (name : String) : Option String :=
  let cs := name.toList
  if '.' ∈ cs then some (String.ofList (cs.reverse.takeWhile (· ≠ '.')).reverse) else none

/-- The first column with a label, or with the unqualified form of it. -/
def columnIndex? (columns : List String) (label : String) : Option Nat :=
  columns.findIdx? (sameName · label) <|>
    (unqualified? label).bind fun suffix => columns.findIdx? (sameName · suffix)

/-- The sort key of an item. -/
def sortKey (q : QueryShape) (columns : List String) (item : SortItem) :
    Except MergeCause SortKey :=
  match columnIndex? columns (q.resolveLabel item.column) <|> columnIndex? columns item.column with
  | some index => .ok ⟨index, item.direction, item.nulls⟩
  | none => .error (.sortColumnMissing item.column columns)

/-- The sort keys of a list of items. -/
def sortKeys (q : QueryShape) (columns : List String) (items : List SortItem) :
    Except MergeCause (List SortKey) :=
  items.mapM (sortKey q columns)

/-- The column of a derived label. -/
def derivedIndex (columns : List String) (label : String) : Except MergeCause Nat :=
  match columnIndex? columns label with
  | some i => .ok i
  | none => .error (.derivedColumnMissing label)

/-- Notes the fold of the projection at a position.  An average also makes its parts add up. -/
def foldOfProjection (columns : List String) (folds : List ColumnFold) :
    Projection × Nat → Except MergeCause (List ColumnFold)
  | (.column _ _, _) => .ok folds
  | (.aggregate .count _ _, i) | (.aggregate .sum _ _, i) => .ok (folds.set i .add)
  | (.aggregate .max _ _, i) => .ok (folds.set i .max)
  | (.aggregate .min _ _, i) => .ok (folds.set i .min)
  | (.aggregate .avg _ _, i) => do
    let count ← derivedIndex columns (countAlias i)
    let sum ← derivedIndex columns (sumAlias i)
    return ((folds.set count .add).set sum .add).set i (.average count sum)

/-- The folds of all columns.  Columns that are no aggregates keep their first value. -/
def columnFolds (q : QueryShape) (columns : List String) : Except MergeCause (List ColumnFold) :=
  q.projections.zipIdx.foldlM (foldOfProjection columns) (columns.map fun _ => .first)

/-- Whether two lists of columns are the same up to case. -/
def sameColumns (as bs : List String) : Bool :=
  as.map foldCase == bs.map foldCase

/-- The columns of all sources, which have to agree with the first. -/
def agreedColumns : List Source → Except MergeCause (List String)
  | [] => .ok []
  | first :: rest =>
    match rest.zipIdx.find? fun (s, _) => !sameColumns s.columns first.columns with
    | some (s, i) => .error (.columnsDiffer (i + 1) s.columns first.columns)
    | none => .ok first.columns

/-- The number of columns that the caller sees, out of those the sources expose. -/
def visibleWidth? (q : QueryShape) (columns : List String) : Except MergeCause (Option Nat) :=
  if q.projections.isEmpty then .ok none
  else if columns.length < q.visibleWidth then
    .error (.tooFewColumns columns.length q.visibleWidth)
  else .ok (some q.visibleWidth)

/-- How the rows of a select are merged. -/
def mergeKind (maxRows : Nat) (q : QueryShape) (columns : List String) (width : Option Nat) :
    Except MergeCause MergeKind :=
  if q.isGrouped then do
    let orderKeys ← sortKeys q columns q.orderBy
    let groupKeys ← sortKeys q columns q.groupBy
    let folds ← columnFolds q columns
    return .grouped { groupKeys, orderKeys, folds, width, maxRows }
  else if q.orderBy.isEmpty then .ok .concat
  else do return .ordered (← sortKeys q columns q.orderBy)

/-- The plan of a merge. -/
def planMerge (maxRows : Nat) (s : Statement) (sources : List Source) :
    Except MergeCause MergePlan := do
  let columns ← agreedColumns sources
  match s with
  | .query q =>
    match q.kind with
    | .administration => return { columns, kind := .concat, width := none, page := none }
    | .select =>
      let width ← visibleWidth? q.shape columns
      let kind ← mergeKind maxRows q.shape columns width
      return { columns, kind, width, page := q.shape.page }
  | _ => return { columns, kind := .concat, width := none, page := none }

end Sharding
