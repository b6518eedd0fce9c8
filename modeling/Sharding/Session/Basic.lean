import Sharding.Execute.Batch
import Sharding.Execute.Statement
import Sharding.GeneratedKeys
import Sharding.Merge.Result
import Sharding.Route.Engine

/-!
# Logical statements and their sessions

A `LogicalStatement` is a statement with everything that its calls need and never change.  A
`Session` is its state between calls: bound parameters, the result of the last call, queued batch
calls, and the physical statements held for them.  The phase tells which of these there are.

A call on a logical statement is an action on its session and the world.  This module has the calls
that run nothing: those on parameters and results, and the close.

A new execution starts by giving up the results of the last one.  When their cursor cannot be
closed, the execution does not take place, but the results are given up nevertheless.
-/

namespace Sharding

/-- Where the generated keys of the last execution are found. -/
inductive KeyOrigin where
  | none
  /-- In the route, or in what the units reported. -/
  | update (route : Route) (native : List (List Datum))
  /-- In the batch. -/
  | batch

/-- A statement with what its calls need. -/
structure LogicalStatement (W : Type) where
  statement : Statement
  router : Router W
  dispatcher : Dispatcher W
  /-- How many rows a merge may hold in memory. -/
  maxRows : Nat
  /-- Whether the counts of the units add up. -/
  accumulate : Bool
  /-- Whether keys that the statement gives itself count as generated keys. -/
  returnsKeys : Bool

/-- The state of a logical statement between its calls. -/
structure Session where
  phase : Phase := .idle
  params : List Datum := []
  /-- The route of the last call that was routed. -/
  route : Option Route := none
  resultSet : Option ResultSet := none
  updateCount : Option UInt64 := none
  keys : KeyOrigin := .none
  executor : StatementExecutor := {}
  batch : BatchExecutor := {}

namespace Session

/-- The number of physical statements held. -/
def statementCount (s : Session) : Nat :=
  s.executor.statementCount + s.batch.statementCount

/-- The number of queued batch calls. -/
def batchCount (s : Session) : Nat :=
  s.batch.calls

/-- The units of the last call that was routed. -/
def routedUnits (s : Session) : List RouteUnit :=
  (s.route.map (·.units)).getD []

/-- The count of the last update; there is none after anything else. -/
def lastUpdateCount (s : Session) : Option UInt64 :=
  if s.phase = .updateCompleted then s.updateCount else none

/-- Whether the statement is closed. -/
def isClosed (s : Session) : Bool :=
  s.phase == .closed

/-- Parameters with the one at `index` set.  Those before it that were never set are NULL. -/
def withParameter (params : List Datum) (index : Nat) (value : Datum) : List Datum :=
  (params ++ List.replicate (index + 1 - params.length) Datum.null).set index value

end Session

namespace LogicalStatement

variable {W α : Type} (l : LogicalStatement W)

/-- A call on a logical statement. -/
abbrev Call (W α : Type) := Act (Session × W) α

/-- A call on the executor of single executions. -/
def onExecutor (x : Act (StatementExecutor × W) α) : Call W α :=
  x.within (·.executor) fun executor s => { s with executor }

/-- A call on the executor of batches. -/
def onBatch (x : Act (BatchExecutor × W) α) : Call W α :=
  x.within (·.batch) fun batch s => { s with batch }

/-- Goes over to a phase. -/
def enter (phase : Phase) : Call W Unit :=
  Act.update fun s => { s with phase }

/-- Refuses a call on a closed statement. -/
def ensureOpen : Call W Unit := do
  if (← Act.state).isClosed then Act.fail (.state .statementClosed)

/-- Closes a result set. -/
def closeRows (r : ResultSet) : Act W Unit :=
  Act.ofStep fun w =>
    let (closed, _, w) := r.close l.dispatcher.provider.closeCursor w
    (closed, w)

/-- Gives up the results of the last execution. -/
def resetResults : Call W Unit := do
  let s ← Act.state
  let closed ← match s.resultSet with
    | none => pure (.ok ())
    | some r => (l.closeRows r).outside.attempt
  onExecutor (StatementExecutor.clear l.dispatcher)
  Act.update fun s => { s with resultSet := none, updateCount := none, keys := .none }
  Act.ofExcept closed

/-- Discards the queued calls and their keys. -/
def discardBatch : Call W Unit := do
  onBatch (BatchExecutor.clear l.dispatcher)
  onBatch (Act.update BatchExecutor.clearKeys)

/-- Routes the statement with the bound parameters. -/
def routeCurrent : Call W Route := do
  let s ← Act.state
  let route ← (l.router.route l.statement s.params).outside
  Act.update fun s => { s with route := some route, phase := .routed }
  return route

/-! ## Parameters -/

/-- Binds the parameter at a position. -/
def setParameter (index : Nat) (value : Datum) : Call W Unit := do
  ensureOpen
  Act.update fun s => { s with params := Session.withParameter s.params index value }

/-- Binds all parameters. -/
def setParameters (params : List Datum) : Call W Unit := do
  ensureOpen
  Act.update fun s => { s with params }

/-- Unbinds all parameters. -/
def clearParameters : Call W Unit :=
  setParameters []

/-! ## Results -/

/-- The result set of the last query. -/
def resultSet : Call W ResultSet := do
  ensureOpen
  let s ← Act.state
  match s.phase, s.resultSet with
  | .queryCompleted, some r => return r
  | phase, _ => Act.fail (.state (.noResultSet phase))

/-- Reads or closes the result set of the last query. -/
def onResultSet (f : ResultSet → W → Except Error α × ResultSet × W) : Call W α := do
  let r ← resultSet
  Act.ofStep fun (s, w) =>
    let (answer, r, w) := f r w
    (answer, { s with resultSet := some r }, w)

/-- Reads the next row. -/
def nextRow : Call W (Option Row) :=
  onResultSet (ResultSet.next l.dispatcher.provider.closeCursor)

/-- Reads all rows that are left. -/
def allRows : Call W (List Row) :=
  onResultSet (ResultSet.readAll l.dispatcher.provider.closeCursor)

/-- Closes the result set. -/
def closeResultSet : Call W Unit :=
  onResultSet (ResultSet.close l.dispatcher.provider.closeCursor)

/-- The keys that the last execution generated. -/
def generatedKeys : Call W GeneratedKeys := do
  ensureOpen
  let s ← Act.state
  let keys : Except UnsupportedCause GeneratedKeys := match s.keys with
    | .none => .ok .none
    | .update route native =>
      GeneratedKeys.ofRoute route.statement route.keyInfo native l.returnsKeys
    | .batch =>
      GeneratedKeys.ofBatch l.statement s.batch.keyInfos s.batch.nativeKeys l.returnsKeys
  Act.ofExcept (keys.mapError .unsupported)

/-! ## Closing -/

/-- Gives up everything that the statement holds.  A statement is closed once: closing it again has
no effect.  It is closed also when its cursor answers with an error. -/
def close : Call W Unit := do
  if (← Act.state).isClosed then return
  let closed ← (l.resetResults).attempt
  l.discardBatch
  Act.update fun s => { s with params := [], route := none, phase := .closed }
  Act.ofExcept closed

end LogicalStatement

end Sharding
