import Sharding.Cursor.Source
import Sharding.Route.Basic

/-!
# Generated keys of an insert

The keys that a caller gets for an insert come from one of two places: from the statement itself,
when its generated column was filled before the rows were sent, or from the shards, which report
the keys they generated natively.

Keys known beforehand are in row order.  Native keys have an order only within one unit, so those
of an insert that ran in several units are refused, unless keys were known beforehand.
-/

namespace Sharding

/-- The keys of an insert, and the name of their column if there is one. -/
structure GeneratedKeys where
  column : Option String
  values : List Datum
deriving DecidableEq

namespace GeneratedKeys

/-- The name of a column of native keys. -/
def nativeColumn : String := "GENERATED_KEY"

/-- No keys. -/
def none : GeneratedKeys := ⟨.none, []⟩

/-- The keys of a column. -/
def ofColumn (column : String) (values : List Datum) : GeneratedKeys :=
  ⟨some column, values⟩

/-- The keys as rows of one column. -/
def source (k : GeneratedKeys) : Source :=
  .ofRows k.column.toList (k.values.map fun key => [key])

/-- The keys that the units of a statement report, in unit order. -/
def ofNative (isInsert known : Bool) : List (List Datum) → Except UnsupportedCause GeneratedKeys
  | [only] => .ok (ofColumn nativeColumn only)
  | [] => .ok none
  | units =>
    if isInsert && !known then .error (.unorderedNativeKeys units.length) else .ok none

/-- The keys of a statement that ran once.  Keys that the statement gave itself are returned only
on request. -/
def ofRoute (statement : Statement) (info : Option KeyInfo) (native : List (List Datum))
    (requested : Bool) : Except UnsupportedCause GeneratedKeys :=
  match info.filter fun i => i.generated || requested with
  | some i => .ok (ofColumn i.column i.values)
  | .none => ofNative statement.isInsert info.isSome native

/-- The keys of a batch: those of all calls in the order of the calls. -/
def ofBatch (statement : Statement) (infos : List KeyInfo) (native : List (List Datum))
    (requested : Bool) : Except UnsupportedCause GeneratedKeys :=
  match infos with
  | [] => ofNative statement.isInsert false native
  | first :: _ =>
    if requested || infos.any (·.generated) then
      .ok (ofColumn first.column (infos.flatMap (·.values)))
    else ofNative statement.isInsert true native

end GeneratedKeys

end Sharding
