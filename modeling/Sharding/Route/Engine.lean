import Sharding.Datum.Order
import Sharding.Route.Insert

/-!
# Routing statements

`Router.route` turns a logical statement and its parameters into a route.

A query over broadcast tables alone runs on one target.  A select that runs on several targets gets
its derived columns, and its page is widened so that each shard returns all rows that can be part
of it; when the rows are groups, the page is dropped, because a shard's groups are not yet whole.

Units that are equal run once: of several the first is kept.  Parameters are compared as a query
compares values, so a unit with a NULL parameter is equal to no other.
-/

namespace Sharding

/-- Equality of two lists of parameters, value by value as a query sees it. -/
def RouteUnit.equals (a b : RouteUnit) : Bool :=
  a.shard == b.shard && a.sql == b.sql && Row.equals a.params b.params

/-- What happens to the page of a query with the given number of targets. -/
def Query.pageClause (q : Query) (targets : Nat) : Sql.PageClause :=
  match q.shape.page with
  | none => .keep
  | some page =>
    if 1 < targets ∧ q.kind = .select then
      if q.shape.isGrouped then .drop else .widen page
    else .keep

/-- The derived columns of a query with the given number of targets. -/
def Query.derivedFor (q : Query) (targets : Nat) : List Sql.DerivedColumn :=
  if 1 < targets ∧ q.kind = .select then q.shape.derivedColumns else []

/-- The physical statements of a template on some targets. -/
def renderTargets (template : Sql.Template) (derived : List Sql.DerivedColumn)
    (page : Sql.PageClause) (params : List Datum) (targets : List RouteTarget) :
    Except RoutingCause (List RouteUnit) :=
  targets.mapM fun target => do
    let sql ← template.render { tables := target.tables, derived, page }
    return { shard := target.shard, sql, params }

/-- The targets of a query. -/
def Query.targets (rule : ShardingRule) (q : Query) (params : List Datum) :
    Except RoutingCause (List RouteTarget) := do
  let targets ←
    if q.tables.isEmpty then rule.tablelessTargets false
    else rule.targets q.tables q.conditions params
  return if q.tables.all rule.isBroadcast then targets.take 1 else targets

/-- The physical statements of a query. -/
def Query.units (rule : ShardingRule) (q : Query) (params : List Datum) :
    Except RoutingCause (List RouteUnit) := do
  let targets ← q.targets rule params
  let n := targets.length
  renderTargets q.template (q.derivedFor n) (q.pageClause n) params targets

/-- The physical statements of an update or a delete. -/
def Change.units (rule : ShardingRule) (c : Change) (params : List Datum) :
    Except RoutingCause (List RouteUnit) := do
  let targets ← rule.targets c.tables c.conditions params
  renderTargets c.template [] .keep params targets

/-- The physical statements of any other statement. -/
def Command.units (rule : ShardingRule) (c : Command) (params : List Datum) :
    Except RoutingCause (List RouteUnit) := do
  let targets ←
    if c.tables.isEmpty then rule.tablelessTargets true
    else rule.targets c.tables [] params
  renderTargets c.template [] .keep params targets

/-- Routes statements by a rule, drawing keys from a source. -/
structure Router (W : Type) where
  rule : ShardingRule
  keys : KeySource W

namespace Router

variable {W : Type} (r : Router W)

/-- The units of a statement before equal ones are dropped, and the keys of an insert. -/
def rendered (s : Statement) (params : List Datum) :
    Act W (List RouteUnit × Option KeyInfo) :=
  let withoutKeys (units : Except RoutingCause (List RouteUnit)) :
      Act W (List RouteUnit × Option KeyInfo) := do
    return (← Act.ofExcept (units.mapError .routing), none)
  match s with
  | .insert i => i.route r.rule r.keys params
  | .query q => withoutKeys (q.units r.rule params)
  | .update c | .delete c => withoutKeys (c.units r.rule params)
  | .other c => withoutKeys (c.units r.rule params)

/-- The route of a statement. -/
def route (s : Statement) (params : List Datum) : Act W Route := do
  let (units, keyInfo) ← r.rendered s params
  match distinctBy RouteUnit.equals units with
  | [] => Act.fail (.routing (.noNodeForStatement s.text))
  | units => return { statement := s, units, keyInfo }

end Router

end Sharding
