/-!
# Phases of a logical statement
-/

namespace Sharding

/-- Where a logical statement stands between and during its calls. -/
inductive Phase where
  /-- Nothing has been executed, or the last execution failed. -/
  | idle
  /-- A call has computed its route. -/
  | routed
  /-- Physical statements are being run. -/
  | executing
  /-- A result set can be read. -/
  | queryCompleted
  /-- An update count can be read. -/
  | updateCompleted
  /-- Parameter sets are queued for a batch. -/
  | batchAccumulating
  /-- The statement can no longer be used. -/
  | closed
deriving DecidableEq

/-- The name of a phase. -/
def Phase.name : Phase → String
  | idle => "Idle"
  | routed => "Routed"
  | executing => "Executing"
  | queryCompleted => "QueryCompleted"
  | updateCompleted => "UpdateCompleted"
  | batchAccumulating => "BatchAccumulating"
  | closed => "Closed"

end Sharding
