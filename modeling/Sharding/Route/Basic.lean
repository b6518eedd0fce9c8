import Sharding.Statement.Basic

/-!
# Routes

A route is what a logical statement becomes: physical statements, each on one shard with its bound
parameters, and for an insert the keys of its generated column.
-/

namespace Sharding

/-- One physical statement on one shard. -/
structure RouteUnit where
  shard : String
  sql : String
  params : List Datum
deriving DecidableEq

/-- The keys of an insert's generated column, one for each row, in the order of the rows. -/
structure KeyInfo where
  column : String
  values : List Datum
  /-- Whether the keys were drawn from a generator; otherwise the statement gave them. -/
  generated : Bool
deriving DecidableEq

/-- The physical statements of a logical statement. -/
structure Route where
  statement : Statement
  units : List RouteUnit
  keyInfo : Option KeyInfo
deriving DecidableEq

namespace RouteUnit

/-- The text of a route unit: shard, statement and parameters. -/
def text (u : RouteUnit) : String :=
  u.shard ++ " ::: " ++ u.sql ++
    if u.params.isEmpty then ""
    else " ::: [" ++ ", ".intercalate (u.params.map Datum.display) ++ "]"

end RouteUnit

namespace Route

/-- Whether the route is a single physical statement. -/
def isSingle (r : Route) : Bool :=
  r.units.length == 1

/-- The shards of the route, each once, in the order of the units. -/
def shards (r : Route) : List String :=
  distinct (r.units.map (·.shard))

end Route

end Sharding
