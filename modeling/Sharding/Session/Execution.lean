import Sharding.Session.Basic

/-!
# Executing a logical statement

An execution is routed, prepared, run on all units and, for a query, merged.  It ends in the phase
of its result; when it fails, it ends idle and holds no physical statement.  The physical statements
of a query stay open as long as its result set is the current one; those of an update are closed
before the call returns.

A cancellation concerns one execution: when the execution is over, the token is cleared.
-/

namespace Sharding

namespace LogicalStatement

variable {W α : Type} (l : LogicalStatement W)

/-- Starts an execution: gives up the results of the last one and the queued batch calls. -/
def beginCall : Call W Unit := do
  ensureOpen
  l.resetResults
  l.discardBatch
  enter .idle

/-- Routes the statement and prepares its units. -/
def prepareCurrent : Call W Route := do
  let route ← l.routeCurrent
  enter .executing
  let _ ← onExecutor (StatementExecutor.prepare l.dispatcher route.units)
  return route

/-- The merged rows of some sources. -/
def merge (statement : Statement) (sources : List Source) : Act W ResultSet :=
  Act.ofRun (mergeSources l.dispatcher.provider.closeCursor l.maxRows statement sources)

/-- Keeps the count and the keys of an update. -/
def completeUpdate (route : Route) (outcomes : List UpdateOutcome) : Call W UInt64 := do
  let counts := outcomes.map (·.affected)
  let count := if l.accumulate then counts.foldl (· + ·) 0 else counts.headD 0
  Act.update fun s =>
    { s with updateCount := some count, keys := .update route (outcomes.map (·.keys)) }
  return count

/-- Closes the physical statements of the current execution. -/
def clearExecutor : Call W Unit :=
  onExecutor (StatementExecutor.clear l.dispatcher)

/-! ## Queries -/

/-- Runs the statement as a query. -/
def runQuery : Call W ResultSet := do
  let route ← l.prepareCurrent
  let sources ← onExecutor (StatementExecutor.query l.dispatcher)
  (l.merge route.statement sources).outside

/-- Makes a result set the current one. -/
def completeQuery (r : ResultSet) : Call W Unit :=
  Act.update fun s => { s with phase := .queryCompleted, resultSet := some r }

/-- Executes a query. -/
def executeQuery : Call W ResultSet := do
  l.beginCall
  if !l.statement.isQuery then Act.fail (.unsupported (.queryOn l.statement.kindName))
  let result ← l.runQuery.attempt
  l.dispatcher.token.reset.outside
  match result with
  | .ok r =>
    completeQuery r
    return r
  | .error e =>
    l.clearExecutor
    enter .idle
    Act.fail e

/-! ## Updates -/

/-- Runs the statement as an update. -/
def runUpdate : Call W UInt64 := do
  let route ← l.prepareCurrent
  l.completeUpdate route (← onExecutor (StatementExecutor.update l.dispatcher))

/-- Executes an update; the answer is the count of affected rows. -/
def executeUpdate : Call W UInt64 := do
  l.beginCall
  if l.statement.isQuery then Act.fail (.unsupported .updateOnQuery)
  let result ← l.runUpdate.attempt
  l.clearExecutor
  l.dispatcher.token.reset.outside
  match result with
  | .ok count =>
    enter .updateCompleted
    return count
  | .error e =>
    enter .idle
    Act.fail e

/-! ## Either -/

/-- Runs the statement; an update has no result set.  Units have to agree on what they return. -/
def runEither : Call W (Option ResultSet) := do
  let route ← l.prepareCurrent
  let outcomes ← onExecutor (StatementExecutor.execute l.dispatcher)
  match Outcome.sources outcomes, Outcome.updates outcomes with
  | [], updates =>
    let _ ← l.completeUpdate route updates
    return none
  | sources, [] => return some (← (l.merge route.statement sources).outside)
  | sources, updates =>
    Act.effect fun (s, w) =>
      (s, sources.foldl (fun w source =>
        StatementExecutor.discardSource l.dispatcher.provider source w) w)
    Act.fail (.merge (.mixedResults sources.length updates.length))

/-- Executes the statement, whatever its kind; the answer is whether there is a result set. -/
def execute : Call W Bool := do
  l.beginCall
  let result ← l.runEither.attempt
  l.dispatcher.token.reset.outside
  match result with
  | .ok (some r) =>
    completeQuery r
    return true
  | .ok none =>
    l.clearExecutor
    enter .updateCompleted
    return false
  | .error e =>
    l.clearExecutor
    enter .idle
    Act.fail e

end LogicalStatement

end Sharding
