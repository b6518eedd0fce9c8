import Sharding.Chunks
import Sharding.Provider.Basic
import Sharding.Route.Basic

/-!
# Execution groups

The units of a call are executed in groups.  A group has a connection of its own, and its units run
one after the other.

`planGroups` forms the groups: the units of one shard are cut into as many groups as there may be
connections, so a shard with few units has a group for each of them.  When units have to share a
connection, the rows of one query are read into memory before the next one runs.

`prepareGroups` then prepares a statement for every unit.  If that fails somewhere, every statement
that was prepared is closed again.
-/

namespace Sharding

/-- How the units of a shard use their connections. -/
inductive ConnectionMode where
  /-- Each unit has a connection, and its rows are read when they are asked for. -/
  | streaming
  /-- Units share a connection, and their rows are read into memory at once. -/
  | buffered
deriving DecidableEq

/-- A route unit with its position in the route. -/
structure IndexedUnit where
  index : Nat
  unit : RouteUnit

/-- The units that are to share a connection. -/
structure ExecutionPlan where
  shard : String
  mode : ConnectionMode
  units : List IndexedUnit

/-- A unit whose statement is prepared. -/
structure PreparedUnit extends IndexedUnit where
  statement : Nat

/-- Prepared units on one connection. -/
structure ExecutionGroup where
  shard : String
  mode : ConnectionMode
  units : List PreparedUnit

/-! ## Planning -/

/-- Units with their positions. -/
def indexUnits (units : List RouteUnit) : List IndexedUnit :=
  units.zipIdx.map fun (unit, index) => { index, unit }

/-- The groups of one shard, whose units share at most `limit` connections. -/
def planShard (limit : Nat) (shard : String) (units : List IndexedUnit) : List ExecutionPlan :=
  let connections := min units.length (max limit 1)
  let mode := if connections < units.length then ConnectionMode.buffered else .streaming
  (chunks (ceilDiv units.length connections) units).map fun units => { shard, mode, units }

/-- The groups of some units, shard by shard in the order of first occurrence. -/
def planGroups (limit : Nat) (units : List RouteUnit) : List ExecutionPlan :=
  (distinct (units.map (·.shard))).flatMap fun shard =>
    planShard limit shard ((indexUnits units).filter (·.unit.shard == shard))

/-! ## Preparing -/

/-- The failure of a unit. -/
def IndexedUnit.failure (u : IndexedUnit) (error : Error) : UnitFailure Error where
  unit := u.index
  shard := u.unit.shard
  sql := u.unit.sql
  error := error

variable {W : Type}

/-- Closes the statements of some units.  A close that fails is passed over. -/
def closeUnits (p : Provider W) (units : List PreparedUnit) (w : W) : W :=
  units.foldl (fun w u => (p.close u.statement w).2) w

/-- Closes the statements of some groups. -/
def closeGroups (p : Provider W) (groups : List ExecutionGroup) (w : W) : W :=
  groups.foldl (fun w g => closeUnits p g.units w) w

/-- Prepares units on a connection until one fails. -/
def prepareUnits (p : Provider W) (c : Connection) :
    List IndexedUnit → Act W (List PreparedUnit × Option (UnitFailure Error))
  | [] => return ([], none)
  | u :: rest => do
    match ← (p.prepare c u.unit.sql).attempt with
    | .error e => return ([], some (u.failure e))
    | .ok statement =>
      let (units, failure) ← prepareUnits p c rest
      return ({ u with statement } :: units, failure)

/-- Prepares a group.  When there is no connection, its first unit fails. -/
def prepareGroup (p : Provider W) (plan : ExecutionPlan) :
    Act W (ExecutionGroup × Option (UnitFailure Error)) := do
  let (units, failure) ← match ← (p.connect plan.shard).attempt with
    | .error e => pure ([], plan.units.head?.map (·.failure e))
    | .ok c => prepareUnits p c plan.units
  return ({ shard := plan.shard, mode := plan.mode, units }, failure)

/-- Prepares groups until a unit fails. -/
def preparePlans (p : Provider W) :
    List ExecutionPlan → Act W (List ExecutionGroup × Option (UnitFailure Error))
  | [] => return ([], none)
  | plan :: rest => do
    let (group, failure) ← prepareGroup p plan
    match failure with
    | some failure => return ([group], some failure)
    | none =>
      let (groups, failure) ← preparePlans p rest
      return (group :: groups, failure)

/-- Prepares a statement for every unit.  When a unit fails, all statements are closed. -/
def prepareGroups (p : Provider W) (limit : Nat) (units : List RouteUnit) :
    Act W (List ExecutionGroup) := do
  let (groups, failure) ← preparePlans p (planGroups limit units)
  match failure with
  | none => return groups
  | some failure =>
    Act.effect (closeGroups p groups)
    Act.fail (Error.ofFailures [failure] units.length)

end Sharding
