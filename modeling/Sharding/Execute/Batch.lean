import Sharding.Execute.Dispatch

/-!
# Executing a batch

A `BatchExecutor` queues logical calls and executes them together.  Units of the calls that agree in
shard and SQL become one `BatchUnit`, with one parameter set for each; so each shard runs a
statement once for all calls.

After the execution the counts go back to the calls.  A call's count is the sum of the counts of its
units, or, when they are not to be summed, the last of them.
-/

namespace Sharding

/-- A parameter set and the call that it comes from. -/
structure BatchEntry where
  params : List Datum
  call : Nat

/-- The units of several calls that agree in shard and SQL. -/
structure BatchUnit where
  shard : String
  sql : String
  /-- In the order of arrival. -/
  entries : List BatchEntry

/-- Queued calls, and the statements and keys of their last execution. -/
structure BatchExecutor where
  units : List BatchUnit := []
  /-- The number of queued calls. -/
  calls : Nat := 0
  /-- The keys that the queued calls gave their rows, in the order of the calls. -/
  keyInfos : List KeyInfo := []
  /-- The keys that the shards generated, for each unit. -/
  nativeKeys : List (List Datum) := []
  groups : List ExecutionGroup := []

namespace BatchUnit

/-- Whether a batch unit takes in a route unit. -/
def accepts (b : BatchUnit) (u : RouteUnit) : Bool :=
  b.shard == u.shard && b.sql == u.sql

/-- The unit as it is prepared, with nothing bound. -/
def routeUnit (b : BatchUnit) : RouteUnit :=
  { shard := b.shard, sql := b.sql, params := [] }

end BatchUnit

/-- Adds a unit of a call to the first batch unit that takes it in, or as a new one. -/
def addToBatch (call : Nat) : List BatchUnit → RouteUnit → List BatchUnit
  | [], u => [{ shard := u.shard, sql := u.sql, entries := [⟨u.params, call⟩] }]
  | b :: rest, u =>
    if b.accepts u then { b with entries := b.entries ++ [⟨u.params, call⟩] } :: rest
    else b :: addToBatch call rest u

/-- Credits the counts of one batch unit to the calls. -/
def creditCounts (accumulate : Bool) (totals : List UInt64) (entries : List BatchEntry)
    (counts : List UInt64) : List UInt64 :=
  (entries.zip counts).foldl (fun totals (entry, count) =>
    totals.modify entry.call fun total => if accumulate then total + count else count) totals

namespace BatchExecutor

variable {W : Type}

/-- The number of statements held. -/
def statementCount (x : BatchExecutor) : Nat :=
  (x.groups.flatMap (·.units)).length

/-- Queues a call.  Its number is the count of the calls before it. -/
def add (x : BatchExecutor) (units : List RouteUnit) (keyInfo : Option KeyInfo) :
    Nat × BatchExecutor :=
  (x.calls, { x with
    units := units.foldl (addToBatch x.calls) x.units
    calls := x.calls + 1
    keyInfos := x.keyInfos ++ keyInfo.toList })

/-- Forgets the keys. -/
def clearKeys (x : BatchExecutor) : BatchExecutor :=
  { x with keyInfos := [], nativeKeys := [] }

/-- Closes the statements of the last execution. -/
def release (d : Dispatcher W) : Act (BatchExecutor × W) Unit :=
  Act.effect fun (x, w) => ({ x with groups := [] }, closeGroups d.provider x.groups w)

/-- Closes the statements and discards the queued calls.  The keys stay. -/
def clear (d : Dispatcher W) : Act (BatchExecutor × W) Unit := do
  release d
  Act.update fun x => { x with units := [], calls := 0 }

/-- Queues the parameter sets of a unit on its statement. -/
def queueEntries (p : Provider W) (statement : Nat) : List BatchEntry → Program W Unit
  | [] => return ()
  | entry :: rest => do
    Program.ofAct (p.bind statement entry.params)
    Program.ofAct (p.addBatch statement)
    queueEntries p statement rest

/-- Runs one unit: the counts of its parameter sets, and the keys that the shard generated. -/
def runUnit (p : Provider W) (units : List BatchUnit) (u : PreparedUnit) :
    Program W (List UInt64 × List Datum) := do
  queueEntries p u.statement (((units[u.index]?).map (·.entries)).getD [])
  let counts ← Program.ofAct (p.executeBatch u.statement)
  let keys ← Program.ofAct (Act.ofStep fun w =>
    let (keys, w) := p.batchKeys u.statement w
    (.ok keys, w))
  return (counts, keys)

/-- Credits the counts of all units.  Keys are kept up to the first unit that reports another number
of counts than it has parameter sets. -/
def credit (accumulate : Bool) :
    List UInt64 → List (BatchUnit × List UInt64 × List Datum) →
      Except MergeCause (List UInt64) × List (List Datum)
  | totals, [] => (.ok totals, [])
  | totals, (unit, counts, keys) :: rest =>
    if counts.length = unit.entries.length then
      let (result, later) := credit accumulate (creditCounts accumulate totals unit.entries counts)
        rest
      (result, keys :: later)
    else (.error (.batchCounts unit.shard counts.length unit.entries.length), [])

/-- Runs the queued calls; the answer is a count for each.  The calls stay queued, and the
statements stay prepared until they are released. -/
def execute (d : Dispatcher W) (accumulate : Bool) :
    Act (BatchExecutor × W) (List UInt64) := do
  let x ← Act.state
  if x.calls = 0 then return []
  release d
  Act.update fun x => { x with nativeKeys := [] }
  let groups ← (prepareGroups d.provider d.connections (x.units.map (·.routeUnit))).outside
  Act.update fun x => { x with groups }
  let results ← (do
    collectOutcomes (fun _ w => w)
      (← d.dispatch (fun u _ => runUnit d.provider x.units u) groups) :
        Act W (List (List UInt64 × List Datum))).outside
  let (totals, nativeKeys) := credit accumulate (List.replicate x.calls 0) (x.units.zip results)
  Act.update fun x => { x with nativeKeys }
  Act.ofExcept (totals.mapError .merge)

end BatchExecutor

end Sharding
