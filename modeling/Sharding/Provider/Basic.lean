import Sharding.Act
import Sharding.Cursor.Source

/-!
# Providers of physical statements

A `Provider` is what this library knows of its data sources: how to connect to a shard, how to
prepare a statement on a connection, and what can be done with a prepared statement.  Connections,
pools and transactions are behind it.

Prepared statements and cursors are known by the numbers that the provider gives them.  A close
answers with an error or without one, and takes effect either way.
-/

namespace Sharding

/-- A connection to a shard. -/
structure Connection where
  shard : String
  number : Nat
deriving DecidableEq

/-- What an update reports. -/
structure UpdateOutcome where
  affected : UInt64
  /-- The keys that the shard generated itself. -/
  keys : List Datum
deriving DecidableEq

/-- What a statement of unknown kind reports. -/
inductive Outcome where
  | rows (source : Source)
  | update (outcome : UpdateOutcome)

namespace Outcome

/-- The sources among some outcomes. -/
def sources (outcomes : List Outcome) : List Source :=
  outcomes.filterMap fun
    | rows s => some s
    | update _ => none

/-- The reports of updates among some outcomes. -/
def updates (outcomes : List Outcome) : List UpdateOutcome :=
  outcomes.filterMap fun
    | rows _ => none
    | update u => some u

end Outcome

/-- Access to the shards in the world `W`. -/
structure Provider (W : Type) where
  connect : (shard : String) → Act W Connection
  /-- Prepares a statement and gives it a number. -/
  prepare : Connection → (sql : String) → Act W Nat
  bind : (statement : Nat) → List Datum → Act W Unit
  query : (statement : Nat) → Act W Source
  update : (statement : Nat) → Act W UpdateOutcome
  execute : (statement : Nat) → Act W Outcome
  /-- Queues the bound parameters as one entry of a batch. -/
  addBatch : (statement : Nat) → Act W Unit
  /-- Runs the queued entries; the answer is one count for each, in order. -/
  executeBatch : (statement : Nat) → Act W (List UInt64)
  /-- Takes the keys that the shard generated in the last batch. -/
  batchKeys : (statement : Nat) → W → List Datum × W
  close : Closer W
  closeCursor : Closer W

namespace Provider

/-- A provider in one part of a larger world. -/
def zoom {S W : Type} (p : Provider W) (part : S → W) (put : W → S → S) : Provider S where
  connect shard := (p.connect shard).zoom part put
  prepare connection sql := (p.prepare connection sql).zoom part put
  bind statement params := (p.bind statement params).zoom part put
  query statement := (p.query statement).zoom part put
  update statement := (p.update statement).zoom part put
  execute statement := (p.execute statement).zoom part put
  addBatch statement := (p.addBatch statement).zoom part put
  executeBatch statement := (p.executeBatch statement).zoom part put
  batchKeys statement s := let (keys, w) := p.batchKeys statement (part s); (keys, put w s)
  close statement s := let (r, w) := p.close statement (part s); (r, put w s)
  closeCursor cursor s := let (r, w) := p.closeCursor cursor (part s); (r, put w s)

end Provider

/-- A flag by which a call in progress can be cancelled from outside. -/
structure CancelToken (W : Type) where
  isSet : W → Bool
  put : Bool → W → W
  isSet_put : ∀ b w, isSet (put b w) = b

namespace CancelToken

variable {W : Type} (token : CancelToken W)

/-- Whether the token is set. -/
def read : Act W Bool :=
  Act.ofRun fun w => (.ok (token.isSet w), w)

/-- Clears the token, so that the next call can run. -/
def reset : Act W Unit :=
  Act.ofRun fun w => (.ok (), token.put false w)

end CancelToken

end Sharding
