import Sharding.Execute.Group
import Sharding.Program

/-!
# Dispatch

`Dispatcher.dispatch` runs every unit of some groups.  The groups are shared out among workers,
which run at a time; the units of one group run one after the other on one worker.  With a single
group or a single worker, the caller runs all units itself.

A unit that has not started when the call is cancelled fails.  When a worker crashes, all its units
fail, also those that had already been run.  When the caller itself crashes, so does the call.

`collectOutcomes` puts the outcomes back into the order of the units.  When some unit failed, the
values of the others are discarded.
-/

namespace Sharding

/-- How the units of a call are run. -/
structure Dispatcher (W : Type) where
  provider : Provider W
  token : CancelToken W
  /-- The number of workers. -/
  workers : Nat
  /-- The number of connections to one shard. -/
  connections : Nat
  /-- Which worker makes its next call, as long as several run. -/
  turns : W → List Nat

/-- What became of a unit. -/
structure UnitOutcome (α : Type) where
  unit : IndexedUnit
  result : Except Error α

/-- The outcome of a unit whose worker crashed. -/
def IndexedUnit.crashed {α : Type} (u : IndexedUnit) : UnitOutcome α :=
  ⟨u, .error (.bug (.workerCrashed u.index u.unit.shard))⟩

namespace Dispatcher

variable {W α : Type} (d : Dispatcher W)

/-- How one unit is run. -/
abbrev UnitRun (W α : Type) := PreparedUnit → ConnectionMode → Program W α

/-- Runs a unit, unless the call is cancelled. -/
def runUnit (run : UnitRun W α) (mode : ConnectionMode) (u : PreparedUnit) :
    Program W (UnitOutcome α) := do
  if ← Program.ofAct d.token.read then return ⟨u.toIndexedUnit, .error .cancelled⟩
  else return ⟨u.toIndexedUnit, ← (run u mode).attempt⟩

/-- Runs the units of a group. -/
def runGroup (run : UnitRun W α) (g : ExecutionGroup) : Program W (List (UnitOutcome α)) :=
  g.units.mapM (d.runUnit run g.mode)

/-- Runs some groups one after the other. -/
def runGroups (run : UnitRun W α) (groups : List ExecutionGroup) :
    Program W (List (UnitOutcome α)) :=
  return (← groups.mapM (d.runGroup run)).flatten

/-- The groups of each worker. -/
def shares (groups : List ExecutionGroup) : List (List ExecutionGroup) :=
  chunks (ceilDiv groups.length (min d.workers groups.length)) groups

/-- Whether the caller runs all units itself. -/
def runsInline (groups : List ExecutionGroup) : Bool :=
  (groups.flatMap (·.units)).length ≤ 1 || groups.length ≤ 1 || d.workers ≤ 1

/-- The outcomes of a worker. -/
def outcomesOf (share : List ExecutionGroup) :
    Except Stop (List (UnitOutcome α)) → List (UnitOutcome α)
  | .ok outcomes => outcomes
  | .error _ => (share.flatMap (·.units)).map (·.toIndexedUnit.crashed)

/-- Runs every unit of some groups. -/
def dispatch (run : UnitRun W α) (groups : List ExecutionGroup) : Act W (List (UnitOutcome α)) :=
  if d.runsInline groups then (d.runGroups run groups).toAct
  else
    let shares := d.shares groups
    Act.ofRun fun w =>
      let (results, w) := Program.interleave (d.turns w) (shares.map (d.runGroups run)) w
      (.ok (List.zipWith outcomesOf shares results).flatten, w)

end Dispatcher

/-- The values of the outcomes in unit order, or an error with all units that failed.  Then each
value is discarded. -/
def collectOutcomes {W α : Type} (discard : α → W → W) (outcomes : List (UnitOutcome α)) :
    Act W (List α) := do
  let sorted := outcomes.mergeSort fun a b => a.unit.index ≤ b.unit.index
  let values := sorted.filterMap fun o => o.result.toOption
  let failures := sorted.filterMap fun o =>
    match o.result with
    | .ok _ => none
    | .error e => some (o.unit.failure e)
  if failures.isEmpty then return values
  else
    Act.effect fun w => values.foldl (fun w a => discard a w) w
    Act.fail (Error.ofFailures failures outcomes.length)

end Sharding
