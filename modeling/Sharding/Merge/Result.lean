import Sharding.Merge.Plan
import Sharding.Merge.Stream

/-!
# Result sets

`mergeSources` makes the result set of a logical statement out of the sources of its units, given
in unit order.

* Without sources the result set is empty.
* The single source of a select is handed on as it is: such a query was not changed by routing.
* Otherwise the plan decides, and the page of the query is read from the merged rows.

When the merge cannot be built, all sources are closed.  A result set is closed once: closing it
again has no effect, and reading it then is an error.
-/

namespace Sharding

/-- How a result set came about. -/
inductive MergeStrategy where
  | direct
  | iterator
  | orderByStream
  | groupByMemory
deriving DecidableEq

/-- The name of a strategy. -/
def MergeStrategy.name : MergeStrategy → String
  | direct => "direct"
  | iterator => "iterator"
  | orderByStream => "order_by_stream"
  | groupByMemory => "group_by_memory"

/-- The rows of a logical query. -/
structure ResultSet where
  reader : Reader
  strategy : MergeStrategy
  columns : List String
  /-- The number of columns that the caller sees. -/
  width : Option Nat
  closed : Bool := false

namespace ResultSet

/-- A result set that reads from a reader. -/
def ofReader (reader : Reader) (strategy : MergeStrategy) (width : Option Nat) : ResultSet :=
  { reader, strategy, columns := cutTo width reader.columns, width }

/-- Reads the next row. -/
def next {W : Type} (closer : Closer W) (r : ResultSet) (w : W) :
    Except Error (Option Row) × ResultSet × W :=
  if r.closed then (.error (.state .resultSetClosed), r, w)
  else
    let (row, reader, w) := r.reader.next closer w
    (row.map (·.map (cutTo r.width)), { r with reader }, w)

/-- Closes the result set, unless it is closed. -/
def close {W : Type} (closer : Closer W) (r : ResultSet) (w : W) :
    Except Error Unit × ResultSet × W :=
  if r.closed then (.ok (), r, w)
  else
    let (result, reader, w) := r.reader.close closer w
    (result, { r with reader, closed := true }, w)

/-- Reads the rows up to the end or the first failure, which loses the rows read before it.  `fuel`
bounds the number of reads. -/
def readAllFrom {W : Type} (closer : Closer W) : (fuel : Nat) → ResultSet → W →
    Except Error (List Row) × ResultSet × W
  | 0, r, w => (.ok [], r, w)
  | fuel + 1, r, w =>
    match r.next closer w with
    | (.error e, r, w) => (.error e, r, w)
    | (.ok none, r, w) => (.ok [], r, w)
    | (.ok (some row), r, w) =>
      let (rows, r, w) := readAllFrom closer fuel r w
      (rows.map (row :: ·), r, w)

/-- All rows that are left. -/
def readAll {W : Type} (closer : Closer W) (r : ResultSet) (w : W) :
    Except Error (List Row) × ResultSet × W :=
  r.readAllFrom closer (r.reader.stream.bound + 1) w

end ResultSet

/-- The result set of a plan. -/
def buildMerge {W : Type} (closer : Closer W) (plan : MergePlan) (sources : List Source) (w : W) :
    Except Stop ResultSet × W :=
  let window := plan.page.map Window.ofPage
  match plan.kind with
  | .concat =>
    (.ok (.ofReader ⟨.concat ⟨plan.columns, [], sources⟩, window⟩ .iterator plan.width), w)
  | .ordered keys =>
    let (merged, w) := Ordered.create closer plan.columns keys sources w
    ((merged.mapError .error).map fun o =>
      .ofReader ⟨.ordered o, window⟩ .orderByStream plan.width, w)
  | .grouped groups =>
    let (merged, w) := mergeGroups closer plan.columns groups sources w
    (merged.map fun s => .ofReader ⟨.single s, window⟩ .groupByMemory plan.width, w)

/-- The result set of a statement, made from the sources of its units. -/
def mergeSources {W : Type} (closer : Closer W) (maxRows : Nat) (s : Statement)
    (sources : List Source) (w : W) : Except Stop ResultSet × W :=
  match sources with
  | [] =>
    let columns := (s.shape?.map (·.visibleLabels)).getD []
    (.ok (.ofReader ⟨.single (.ofRows columns []), none⟩ .iterator none), w)
  | first :: rest =>
    if rest.isEmpty && s.isSelect then (.ok (.ofReader ⟨.single first, none⟩ .direct none), w)
    else
      match planMerge maxRows s (first :: rest) with
      | .ok plan => buildMerge closer plan (first :: rest) w
      | .error cause =>
        let (_, _, w) := Source.closeAll closer (first :: rest) w
        (.error (.error (.merge cause)), w)

end Sharding
