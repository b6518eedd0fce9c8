import Sharding.Datum.Order
import Sharding.Sorting.Adaptive
import Sharding.Statement.Shape

/-!
# The order of rows

A `SortKey` is a sort item whose column has been found in the rows: its position, its direction and
its place for NULL.  Where NULL stands does not depend on the direction.  A column that a row lacks
counts as NULL.

`sortRows` puts rows in the order of their keys and keeps the order of rows with equal keys.
-/

namespace Sharding

/-- A sort item as a column of the rows. -/
structure SortKey where
  index : Nat
  direction : Direction
  nulls : NullPlacement
deriving DecidableEq

namespace SortKey

/-- The order of two values under a key. -/
def compareValues (key : SortKey) (a b : Datum) : Ordering :=
  match a.isNull, b.isNull with
  | true, true => .eq
  | true, false => match key.nulls with
    | .first => .lt
    | .last => .gt
  | false, true => match key.nulls with
    | .first => .gt
    | .last => .lt
  | false, false => match key.direction with
    | .asc => a.order b
    | .desc => (a.order b).swap

end SortKey

/-- The value of a row in a column. -/
def Row.column (row : Row) (index : Nat) : Datum :=
  row[index]?.getD .null

/-- The order of two rows under a list of keys, the first key first. -/
def compareRows (keys : List SortKey) (a b : Row) : Ordering :=
  match keys with
  | [] => .eq
  | key :: rest => (key.compareValues (a.column key.index) (b.column key.index)).then
      (compareRows rest a b)

/-- The rows in the order of some keys.  Where values of several kinds stand in one column, the keys
may be no order on the rows; then there may be no result. -/
def sortRows (keys : List SortKey) (rows : List Row) : Option (List Row) :=
  Sorting.adaptive (fun a b => compareRows keys a b == .lt) rows

end Sharding
