import Sharding.Act
import Sharding.Cursor.Source
import Sharding.Datum.Sum
import Sharding.Merge.GroupKey

/-!
# Merging groups

Each shard answers a grouped query with the groups of its own rows.  `mergeGroups` reads the rows of
all shards and folds those with one group key into one row, column by column:

* counts and sums add up;
* of greatest and least values the most extreme stays, and NULL gives way to any value;
* averages are computed at the end, from the count and the sum that were selected with them;
* every other column keeps its value in the group's first row.

The groups come out in the order of the sort keys, or of the group keys when there is no order;
groups with equal keys come in the order of their first rows.
-/

namespace Sharding

/-- How a column of the rows of one group becomes one value. -/
inductive ColumnFold where
  | first
  | add
  | max
  | min
  /-- The quotient of a sum and a count, which stand in other columns. -/
  | average (count sum : Nat)
deriving DecidableEq

/-- What is needed to merge groups. -/
structure GroupPlan where
  groupKeys : List SortKey
  orderKeys : List SortKey
  folds : List ColumnFold
  width : Option Nat
  maxRows : Nat
deriving DecidableEq

/-- Folds a value into what its group has in a column. -/
def ColumnFold.fold (f : ColumnFold) (column : Nat) (acc value : Datum) :
    Except MergeCause Datum :=
  match f with
  | first | average _ _ => .ok acc
  | add =>
    match acc.add? value with
    | some sum => .ok sum
    | none => .error (.notAddable value.kindName acc.kindName column)
  | max =>
    .ok (if !value.isNull && (acc.isNull || value.compare? acc == some .gt) then value else acc)
  | min =>
    .ok (if !value.isNull && (acc.isNull || value.compare? acc == some .lt) then value else acc)

/-- Folds a row into the row of its group, from the given column on.  Values behind the group's
last column are dropped. -/
def foldRow (folds : List ColumnFold) (column : Nat) : Row → Row → Except MergeCause Row
  | acc :: accs, value :: values => do
    let acc ← (folds[column]?.getD .first).fold column acc value
    let accs ← foldRow folds (column + 1) accs values
    return acc :: accs
  | accs, _ => .ok accs

/-- The quotient of a sum and a count.  There is none without a sum or when the count is zero. -/
def averageOf (count sum : Option Datum) : Datum :=
  let n := (count.bind Datum.toFloat?).getD 0.0
  match sum.bind Datum.toFloat? with
  | some total => if n == 0.0 then .null else .float64 (.ofFloat (total / n))
  | none => .null

/-- Computes the averages of a group, from left to right. -/
def finishRow (folds : List ColumnFold) (row : Row) : Row :=
  folds.zipIdx.foldl (fun row (f, i) =>
    match f with
    | .average count sum => row.set i (averageOf row[count]? row[sum]?)
    | _ => row) row

/-- A group: its key and its row so far. -/
abbrev Group := List UInt8 × Row

/-- Folds a row into its group.  A row with a new key starts a group behind the others. -/
def addToGroups (folds : List ColumnFold) (key : List UInt8) (row : Row) :
    List Group → Except MergeCause (List Group)
  | [] => .ok [(key, row)]
  | (k, acc) :: rest =>
    if k = key then do
      let acc ← foldRow folds 0 acc row
      return (k, acc) :: rest
    else do
      let rest ← addToGroups folds key row rest
      return (k, acc) :: rest

/-- Reads rows into groups.  `buffered` counts the rows read so far. -/
def gather (plan : GroupPlan) (buffered : Nat) (groups : List Group) :
    List (Except Error Row) → Except Error (List Group)
  | [] => .ok groups
  | .error e :: _ => .error e
  | .ok row :: rest => do
    if plan.maxRows < buffered + 1 then .error (.merge (.tooManyRows plan.maxRows))
    let key := groupKey (plan.groupKeys.map (·.index)) row
    let groups ← (addToGroups plan.folds key row groups).mapError .merge
    gather plan (buffered + 1) groups rest

/-- The keys that the groups come out by. -/
def GroupPlan.outputKeys (plan : GroupPlan) : List SortKey :=
  if plan.orderKeys.isEmpty then plan.groupKeys else plan.orderKeys

/-- A list cut to the visible columns. -/
def cutTo {α : Type} (width : Option Nat) (xs : List α) : List α :=
  match width with
  | some w => xs.take w
  | none => xs

/-- The finished rows of some groups, in order. -/
def GroupPlan.finish (plan : GroupPlan) (groups : List Group) : Option (List Row) := do
  let rows ← sortRows plan.outputKeys (groups.map fun g => finishRow plan.folds g.2)
  return rows.map (cutTo plan.width)

/-- The merged groups of all sources.  The sources are read one after the other and closed in any
case; the error of a read comes before that of a close.  A merge of groups that cannot be put in
order crashes. -/
def mergeGroups {W : Type} (closer : Closer W) (columns : List String) (plan : GroupPlan)
    (sources : List Source) (w : W) : Except Stop Source × W :=
  let gathered := gather plan 0 [] (sources.flatMap (·.outcomes))
  let (closed, _, w) := Source.closeAll closer sources w
  match gathered, closed with
  | .error e, _ | .ok _, .error e => (.error (.error e), w)
  | .ok groups, .ok () =>
    match plan.finish groups with
    | some rows => (.ok (.ofRows (cutTo plan.width columns) rows), w)
    | none => (.error .crash, w)

end Sharding
