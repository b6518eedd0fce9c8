import Sharding.Provider.Basic
import Sharding.Text.Fragment

/-!
# Faults

`Provider.withFaults` is a provider whose statements go wrong as laid down in advance.  A fault is
placed on a shard and a fragment of SQL text.  It concerns the statements that are prepared on the
shard afterwards and contain the fragment, and the cursors of those statements.

A fault that fails answers with a connection error of the shard.  A close with a fault takes effect
before it fails.
-/

namespace Sharding

/-- What goes wrong. -/
inductive FaultKind where
  | bind
  | addBatch
  /-- The last count of a batch is missing. -/
  | shortBatch
  /-- A batch has one count too many. -/
  | longBatch
  | close
  | cursorNext
  | cursorClose
  /-- The calls in progress are cancelled just before the execution. -/
  | cancel
  /-- The execution crashes. -/
  | crash
deriving DecidableEq

/-- The name of a kind of faults. -/
def FaultKind.name : FaultKind → String
  | bind => "bind"
  | addBatch => "add_batch"
  | shortBatch => "short_batch"
  | longBatch => "long_batch"
  | close => "close"
  | cursorNext => "cursor_next"
  | cursorClose => "cursor_close"
  | cancel => "cancel"
  | crash => "panic"

/-- The error of a fault on a shard. -/
def FaultKind.error (kind : FaultKind) (shard : String) : Error :=
  .connection shard ("fault " ++ kind.name)

/-- The counts of a batch under a fault. -/
def FaultKind.counts : FaultKind → List UInt64 → List UInt64
  | shortBatch, counts => counts.dropLast
  | longBatch, counts => counts ++ [99]
  | _, counts => counts

/-- A fault that is placed. -/
structure Fault where
  shard : String
  fragment : String
  kind : FaultKind

/-- Whether a fault concerns a statement. -/
def Fault.concerns (f : Fault) (shard sql : String) : Bool :=
  f.shard == shard && occursIn f.fragment.toList sql.toList

/-- A statement with faults. -/
structure FaultyStatement where
  number : Nat
  shard : String
  kinds : List FaultKind

/-- The faults placed, and the statements and cursors that they concern. -/
structure Faults where
  placed : List Fault := []
  statements : List FaultyStatement := []
  /-- The cursors whose close fails, with the error. -/
  cursors : List (Nat × Error) := []

namespace Faults

/-- Places a fault. -/
def place (f : Faults) (fault : Fault) : Faults :=
  { f with placed := f.placed ++ [fault] }

/-- Notes a statement that has been prepared. -/
def notice (f : Faults) (number : Nat) (shard sql : String) : Faults :=
  match (f.placed.filter (·.concerns shard sql)).map (·.kind) with
  | [] => f
  | kinds => { f with statements := ⟨number, shard, kinds⟩ :: f.statements }

/-- The statement with a number, if it has faults. -/
def statement? (f : Faults) (number : Nat) : Option FaultyStatement :=
  f.statements.find? (·.number == number)

/-- The error of a statement's call, if the call has a fault. -/
def error? (f : Faults) (number : Nat) (kind : FaultKind) : Option Error :=
  (f.statement? number).bind fun s => if kind ∈ s.kinds then some (kind.error s.shard) else none

/-- Whether a statement has a fault of a kind. -/
def has (f : Faults) (number : Nat) (kind : FaultKind) : Bool :=
  (f.error? number kind).isSome

/-- The counts of a statement's batch. -/
def counts (f : Faults) (number : Nat) (counts : List UInt64) : List UInt64 :=
  (((f.statement? number).map (·.kinds)).getD []).foldl (fun counts kind => kind.counts counts)
    counts

/-- A source under the faults of the statement that it comes from. -/
def spoil (f : Faults) (number : Nat) (source : Source) : Source × Faults :=
  let broken := { source with broken := (f.error? number .cursorNext).or source.broken }
  match f.error? number .cursorClose, source.handle with
  | some e, some cursor => (broken, { f with cursors := (cursor, e) :: f.cursors })
  | _, _ => (broken, f)

end Faults

namespace Provider

variable {W : Type} (p : Provider W) (part : W → Faults) (put : Faults → W → W) (cancel : W → W)

/-- A call of a statement that fails under a fault of the given kind. -/
def failing {α : Type} (n : Nat) (kind : FaultKind) (x : Act W α) : Act W α :=
  Act.ofRun fun w =>
    match (part w).error? n kind with
    | some e => (.error (.error e), w)
    | none => x.run w

/-- An execution, before which calls may be cancelled and which may crash. -/
def executing {α : Type} (n : Nat) (x : Act W α) : Act W α :=
  Act.ofRun fun w =>
    let w := if (part w).has n .cancel then cancel w else w
    if (part w).has n .crash then (.error .crash, w) else x.run w

/-- The source of a statement under its faults. -/
def spoiling (n : Nat) (source : Source) : Act W Source :=
  Act.ofRun fun w =>
    let (source, faults) := (part w).spoil n source
    (.ok source, put faults w)

/-- A provider with the faults that its world tells. -/
def withFaults : Provider W where
  connect := p.connect
  prepare connection sql := do
    let n ← p.prepare connection sql
    Act.ofRun fun w => (.ok n, put ((part w).notice n connection.shard sql) w)
  bind n params := failing part n .bind (p.bind n params)
  query n := do
    spoiling part put n (← executing part cancel n (p.query n))
  update n := executing part cancel n (p.update n)
  execute n := do
    match ← executing part cancel n (p.execute n) with
    | .rows source => return .rows (← spoiling part put n source)
    | .update outcome => return .update outcome
  addBatch n := failing part n .addBatch (p.addBatch n)
  executeBatch n := do
    let counts ← executing part cancel n (p.executeBatch n)
    Act.ofRun fun w => (.ok ((part w).counts n counts), w)
  batchKeys := p.batchKeys
  close n w :=
    let (closed, w) := p.close n w
    match (part w).error? n .close with
    | some e => (.error e, w)
    | none => (closed, w)
  closeCursor n w :=
    let (closed, w) := p.closeCursor n w
    match (part w).cursors.lookup n with
    | some e => (.error e, w)
    | none => (closed, w)

end Provider

end Sharding
