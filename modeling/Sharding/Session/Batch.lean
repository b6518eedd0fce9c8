import Sharding.Session.Basic

/-!
# Batches of a logical statement

`addBatch` routes the bound parameters and queues the call; `executeBatch` executes all queued calls
together.  The first call that is queued gives up the results of the last execution; a call that
cannot be routed then leaves the queue as it is.
-/

namespace Sharding

namespace LogicalStatement

variable {W α : Type} (l : LogicalStatement W)

/-- Queues a call with the bound parameters, which are unbound afterwards. -/
def addBatch : Call W Nat := do
  ensureOpen
  if l.statement.isQuery then Act.fail (.unsupported .batchOnQuery)
  if (← Act.state).phase ≠ .batchAccumulating then
    l.resetResults
    l.discardBatch
  let route ← l.routeCurrent
  Act.ofStep fun (s, w) =>
    let (call, batch) := s.batch.add route.units route.keyInfo
    (.ok call, { s with batch, params := [], phase := .batchAccumulating }, w)

/-- Executes the queued calls; the answer is a count for each.  Afterwards none are queued. -/
def executeBatch : Call W (List UInt64) := do
  ensureOpen
  if (← Act.state).phase ≠ .batchAccumulating then
    l.resetResults
    enter .idle
    return []
  let result ← (onBatch (BatchExecutor.execute l.dispatcher l.accumulate)).attempt
  onBatch (BatchExecutor.clear l.dispatcher)
  l.dispatcher.token.reset.outside
  enter .idle
  match result with
  | .ok counts =>
    Act.update fun s => { s with keys := .batch }
    return counts
  | .error e =>
    onBatch (Act.update BatchExecutor.clearKeys)
    Act.fail e

/-- Discards the queued calls. -/
def clearBatch : Call W Unit := do
  ensureOpen
  l.discardBatch
  if (← Act.state).phase = .batchAccumulating then enter .idle

end LogicalStatement

end Sharding
