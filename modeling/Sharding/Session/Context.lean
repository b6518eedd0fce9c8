import Sharding.Config.Basic
import Sharding.Session.Batch
import Sharding.Session.Execution

/-!
# Contexts

A `Context` is what logical statements share: the sharding rule, the generators of keys, the
provider and the configuration, which has been validated.
-/

namespace Sharding

/-- What logical statements share. -/
structure Context (W : Type) where
  rule : ShardingRule
  keys : KeySource W
  provider : Provider W
  config : Config
  /-- Which worker makes its next call, as long as several run. -/
  turns : W → List Nat

/-- The generator of tables that have none of their own, for a configuration that is valid. -/
def Config.defaultGenerator (c : Config) (clock : Clock) : Except Error KeyGenerator := do
  c.validate.mapError .config
  return .snowflake (← Snowflake.create c.workerId c.clockTolerance clock)

namespace Context

variable {W : Type}

/-- A context, if its configuration is valid. -/
def create (c : Context W) : Except Error (Context W) := do
  c.config.validate.mapError .config
  return c

/-- Whether the counts of a statement's units add up.  Those of broadcast tables alone do not,
because each unit changes the same rows. -/
def accumulates (c : Context W) (s : Statement) : Bool :=
  s.tables.isEmpty || !s.tables.all c.rule.isBroadcast

/-- A logical statement, whose calls can be cancelled by a token. -/
def prepare (c : Context W) (statement : Statement) (token : CancelToken W)
    (returnsKeys : Bool) : LogicalStatement W where
  statement := statement
  router := { rule := c.rule, keys := c.keys }
  dispatcher :=
    { provider := c.provider
      token
      workers := c.config.executorSize
      connections := c.config.maxConnections
      turns := c.turns }
  maxRows := c.config.maxRows
  accumulate := c.accumulates statement
  returnsKeys := returnsKeys

end Context

end Sharding
