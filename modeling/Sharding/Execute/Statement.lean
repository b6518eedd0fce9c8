import Sharding.Execute.Dispatch

/-!
# Executing a statement once

A `StatementExecutor` holds the prepared statements of one logical call.  `prepare` prepares and
binds them, and a query, an update or an execution of unknown kind then runs them all.  They stay
prepared, so they can be bound again and run again, until they are cleared.
-/

namespace Sharding

/-- The prepared statements of a call, and the units that they belong to. -/
structure StatementExecutor where
  groups : List ExecutionGroup := []
  units : List RouteUnit := []

namespace StatementExecutor

variable {W : Type}

/-- All prepared units. -/
def prepared (x : StatementExecutor) : List PreparedUnit :=
  x.groups.flatMap (·.units)

/-- The number of statements held. -/
def statementCount (x : StatementExecutor) : Nat :=
  x.prepared.length

/-- Closes every statement and forgets the units. -/
def clear (d : Dispatcher W) : Act (StatementExecutor × W) Unit :=
  Act.effect fun (x, w) => ({}, closeGroups d.provider x.groups w)

/-- Binds the parameters of a unit. -/
def bind (d : Dispatcher W) (index : Nat) (params : List Datum) :
    Act (StatementExecutor × W) Unit := do
  let x ← Act.state
  match x.prepared.find? (·.index == index) with
  | none => Act.fail (.state (.unitNotPrepared index))
  | some u =>
    match ← (d.provider.bind u.statement params).outside.attempt with
    | .ok _ => return ()
    | .error e => Act.fail (Error.ofFailures [u.failure e] x.units.length)

/-- Binds the parameters of some units. -/
def bindAll (d : Dispatcher W) : List IndexedUnit → Act (StatementExecutor × W) Unit
  | [] => return ()
  | u :: rest => do
    bind d u.index u.unit.params
    bindAll d rest

/-- Prepares and binds a statement for every unit, in place of those held before.  When that fails,
no statement is held. -/
def prepare (d : Dispatcher W) (units : List RouteUnit) : Act (StatementExecutor × W) Nat := do
  clear d
  let groups ← (prepareGroups d.provider d.connections units).outside
  Act.update fun _ => { groups, units }
  match ← (bindAll d (indexUnits units)).attempt with
  | .ok _ => return units.length
  | .error e =>
    clear d
    Act.fail e

/-- Runs every unit and collects the values. -/
def runAll {α : Type} (d : Dispatcher W) (discard : α → W → W) (run : Dispatcher.UnitRun W α) :
    Act (StatementExecutor × W) (List α) := do
  let x ← Act.state
  if x.groups.isEmpty then Act.fail (.state .nothingPrepared)
  else (do collectOutcomes discard (← d.dispatch run x.groups) : Act W (List α)).outside

/-- Closes a source; a close that fails is passed over. -/
def discardSource (p : Provider W) (s : Source) (w : W) : W :=
  (s.close p.closeCursor w).2.2

/-- Closes the source of an outcome. -/
def discardOutcome (p : Provider W) : Outcome → W → W
  | .rows s, w => discardSource p s w
  | .update _, w => w

/-- A source as its mode wants it. -/
def settle (p : Provider W) (mode : ConnectionMode) (s : Source) : Program W Source :=
  match mode with
  | .streaming => return s
  | .buffered => Program.ofAct (Act.ofStep (s.drain p.closeCursor))

/-- Runs every unit as a query. -/
def query (d : Dispatcher W) : Act (StatementExecutor × W) (List Source) :=
  runAll d (discardSource d.provider) fun u mode => do
    settle d.provider mode (← Program.ofAct (d.provider.query u.statement))

/-- Runs every unit as an update. -/
def update (d : Dispatcher W) : Act (StatementExecutor × W) (List UpdateOutcome) :=
  runAll d (fun _ w => w) fun u _ => Program.ofAct (d.provider.update u.statement)

/-- Runs every unit, whatever its kind. -/
def execute (d : Dispatcher W) : Act (StatementExecutor × W) (List Outcome) :=
  runAll d (discardOutcome d.provider) fun u mode => do
    match ← Program.ofAct (d.provider.execute u.statement) with
    | .rows s => return .rows (← settle d.provider mode s)
    | .update outcome => return .update outcome

end StatementExecutor

end Sharding
