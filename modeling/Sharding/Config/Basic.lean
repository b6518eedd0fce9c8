import Sharding.Error
import Sharding.Keys.Generator

/-!
# Configuration

A `Config` sets the limits within which logical calls run.  `Config.validate` refuses limits of zero
and worker numbers that do not fit a key; of several faults it names the first in the order of the
fields.
-/

namespace Sharding

/-- The limits within which logical calls run. -/
structure Config where
  /-- How many workers one call may use. -/
  executorSize : Nat
  /-- How many connections one call may hold on one shard. -/
  maxConnections : Nat := 1
  /-- How many rows a merge may hold in memory. -/
  maxRows : Nat := 1000000
  /-- The number of this process in time-ordered keys. -/
  workerId : Nat := 0
  /-- How far the clock may step back before drawing a key fails, in milliseconds. -/
  clockTolerance : Nat := 10
  /-- Whether statements are logged. -/
  showSql : Bool := false
deriving DecidableEq

/-- Refuses a configuration that cannot work. -/
def Config.validate (c : Config) : Except ConfigCause Unit :=
  if c.executorSize = 0 then .error .executorSize
  else if c.maxConnections = 0 then .error .maxConnections
  else if c.maxRows = 0 then .error .maxRows
  else if maxWorkerId < c.workerId then .error (.workerId c.workerId)
  else .ok ()

end Sharding
