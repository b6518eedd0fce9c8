import Sharding.Provider.Basic
import Sharding.Text.Fragment

/-!
# A provider in memory

The shards of this provider answer from scripts.  A script belongs to a fragment of SQL text, and a
statement is answered by the longest fragment that occurs in its text; of several that are equally
long the last one registered counts.

The provider keeps a log of the executions, in their order, and counts what is open.  The count of
open statements goes up with every statement prepared and down with the first close of each;
likewise the count of open cursors.  Statements and cursors are numbered in the order of their
creation.

A shard that generates keys numbers its rows consecutively.
-/

namespace Sharding

/-- What an execution yields. -/
inductive Response where
  | rows (columns : List String) (rows : List Row)
  /-- `affected` rows, for each entry of a batch; with keys or without. -/
  | update (affected : UInt64) (nativeKeys : Bool)

/-- The answer to statements in which a fragment occurs: a response or the text of an error. -/
structure Script where
  fragment : String
  response : Except String Response

/-- A shard in memory. -/
structure MemoryShard where
  name : String
  /-- In the order of registration. -/
  scripts : List Script := []
  nextKey : Int64 := 1
  /-- Whether preparing a statement fails. -/
  failsPrepare : Bool := false
  /-- Whether connecting fails. -/
  unavailable : Bool := false

/-- A statement prepared in memory. -/
structure MemoryStatement where
  shard : String
  sql : String
  params : List Datum := []
  batch : List (List Datum) := []
  batchKeys : List Datum := []
  closed : Bool := false

/-- How a statement was executed. -/
inductive Operation where
  | query
  | update
  | execute
  | batch
deriving DecidableEq

/-- The name of an operation in the log. -/
def Operation.name : Operation → String
  | query => "query"
  | update => "update"
  | execute => "execute"
  | batch => "batch"

/-- An execution, or one entry of a batch. -/
structure LogEntry where
  shard : String
  operation : Operation
  sql : String
  params : List Datum

/-- Whether an entry does not stand after another in the order of shards and, on one shard, of
SQL texts. -/
def LogEntry.le (a b : LogEntry) : Bool :=
  a.shard < b.shard || (a.shard == b.shard && !(b.sql < a.sql))

/-- The shards in memory, with everything that was made on them. -/
structure Memory where
  shards : List MemoryShard := []
  statements : List MemoryStatement := []
  /-- For each cursor, whether it is closed. -/
  cursors : List Bool := []
  log : List LogEntry := []
  openStatements : Int := 0
  openCursors : Int := 0
  prepared : Nat := 0

/-- The one of two scripts that counts, of which `b` was registered later. -/
def Script.longer (a b : Script) : Script :=
  if a.fragment.utf8ByteSize ≤ b.fragment.utf8ByteSize then b else a

namespace MemoryShard

/-- The script that answers a statement. -/
def script? (s : MemoryShard) (sql : String) : Option Script :=
  match s.scripts.filter fun script => occursIn script.fragment.toList sql.toList with
  | [] => none
  | first :: rest => some (rest.foldl Script.longer first)

/-- The next keys, as many as there are rows, and the shard after them. -/
def takeKeys (s : MemoryShard) (count : UInt64) : List Datum × MemoryShard :=
  let n := count.toInt64
  ((List.range n.toInt.toNat).map fun i => .int64 (s.nextKey + Int64.ofNat i),
    { s with nextKey := s.nextKey + n })

end MemoryShard

namespace Memory

/-! ## Setting up -/

/-- Adds a shard, unless there is one of this name. -/
def addShard (m : Memory) (name : String) : Memory :=
  if m.shards.any (·.name == name) then m else { m with shards := m.shards ++ [{ name }] }

/-- The provider with some shards. -/
def ofShards (names : List String) : Memory :=
  names.foldl addShard {}

/-- The shard with a name. -/
def shard? (m : Memory) (name : String) : Option MemoryShard :=
  m.shards.find? (·.name == name)

/-- Changes the shard with a name. -/
def modifyShard (m : Memory) (name : String) (f : MemoryShard → MemoryShard) : Memory :=
  { m with shards := m.shards.map fun s => if s.name == name then f s else s }

/-- Changes the shard with a name, which is added if need be. -/
def configure (m : Memory) (name : String) (f : MemoryShard → MemoryShard) : Memory :=
  (m.addShard name).modifyShard name f

/-- Registers an answer. -/
def script (m : Memory) (shard fragment : String) (response : Except String Response) : Memory :=
  m.configure shard fun s => { s with scripts := s.scripts ++ [{ fragment, response }] }

/-- The executions on a shard. -/
def executedOn (m : Memory) (shard : String) : List LogEntry :=
  m.log.filter (·.shard == shard)

/-- The log by shards and SQL texts; what agrees in both stays in its order. -/
def sortedLog (m : Memory) : List LogEntry :=
  m.log.mergeSort LogEntry.le

/-! ## Statements and cursors -/

/-- Changes the statement with a number. -/
def setStatement (m : Memory) (n : Nat) (s : MemoryStatement) : Memory :=
  { m with statements := m.statements.set n s }

/-- Notes executions of a statement in the log. -/
def record (m : Memory) (s : MemoryStatement) (operation : Operation)
    (sets : List (List Datum)) : Memory :=
  { m with log := m.log ++ sets.map fun params =>
      { shard := s.shard, operation, sql := s.sql, params } }

/-- The answer of a statement's shard. -/
def respond (m : Memory) (s : MemoryStatement) : Except Error Response :=
  match (m.shard? s.shard).bind (·.script? s.sql) with
  | some script => script.response.mapError (.connection s.shard)
  | none => .error (.connection s.shard ("no scripted response for: " ++ s.sql))

/-- Takes keys from a shard. -/
def takeKeys (m : Memory) (shard : String) (count : UInt64) : List Datum × Memory :=
  match m.shard? shard with
  | none => ([], m)
  | some s =>
    let (keys, s) := s.takeKeys count
    (keys, m.modifyShard shard fun _ => s)

/-- Opens a cursor. -/
def openCursor (m : Memory) (columns : List String) (rows : List Row) : Source × Memory :=
  ({ columns, reads := rows.map .ok, handle := some m.cursors.length },
    { m with cursors := m.cursors ++ [false], openCursors := m.openCursors + 1 })

/-- The report of an update, whose keys are taken from the shard. -/
def report (m : Memory) (s : MemoryStatement) (affected : UInt64) (nativeKeys : Bool) :
    UpdateOutcome × Memory :=
  if nativeKeys then
    let (keys, m) := m.takeKeys s.shard affected
    (⟨affected, keys⟩, m)
  else (⟨affected, []⟩, m)

/-- An action on a statement that has to be open. -/
def onOpen {α : Type} (n : Nat) (f : MemoryStatement → Memory → Except Error α × Memory) :
    Act Memory α :=
  Act.ofStep fun m =>
    match m.statements[n]? with
    | none => (.error (.state (.unknownStatement n)), m)
    | some s =>
      if s.closed then (.error (.connection s.shard "statement already closed"), m) else f s m

/-- Closes the statement with a number.  The first close is counted. -/
def closeStatement : Closer Memory := fun n m =>
  match m.statements[n]? with
  | none => (.ok (), m)
  | some s =>
    if s.closed then (.ok (), m)
    else
      (.ok (), { m.setStatement n { s with closed := true } with
        openStatements := m.openStatements - 1 })

/-- Closes the cursor with a number.  The first close is counted. -/
def closeCursor : Closer Memory := fun n m =>
  if m.cursors[n]? = some false then
    (.ok (), { m with cursors := m.cursors.set n true, openCursors := m.openCursors - 1 })
  else (.ok (), m)

/-! ## The provider -/

/-- Connects to a shard that is available. -/
def connect (name : String) : Act Memory Connection :=
  Act.ofStep fun m =>
    match m.shard? name with
    | none => (.error (.connection name "unknown shard"), m)
    | some s =>
      if s.unavailable then (.error (.connection name "shard unavailable"), m)
      else (.ok ⟨name, m.shards.findIdx (·.name == name)⟩, m)

/-- Prepares a statement. -/
def prepare (c : Connection) (sql : String) : Act Memory Nat :=
  Act.ofStep fun m =>
    if (m.shard? c.shard).any (·.failsPrepare) then
      (.error (.connection c.shard ("prepare failed: " ++ sql)), m)
    else
      (.ok m.statements.length,
        { m with
          statements := m.statements ++ [{ shard := c.shard, sql }]
          openStatements := m.openStatements + 1
          prepared := m.prepared + 1 })

/-- Binds parameters. -/
def bind (n : Nat) (params : List Datum) : Act Memory Unit :=
  onOpen n fun s m => (.ok (), m.setStatement n { s with params })

/-- Runs a query. -/
def query (n : Nat) : Act Memory Source :=
  onOpen n fun s m =>
    let m := m.record s .query [s.params]
    match m.respond s with
    | .ok (.rows columns rows) =>
      let (source, m) := m.openCursor columns rows
      (.ok source, m)
    | .ok _ => (.error (.connection s.shard ("not a query: " ++ s.sql)), m)
    | .error e => (.error e, m)

/-- Runs an update. -/
def update (n : Nat) : Act Memory UpdateOutcome :=
  onOpen n fun s m =>
    let m := m.record s .update [s.params]
    match m.respond s with
    | .ok (.update affected nativeKeys) =>
      let (outcome, m) := m.report s affected nativeKeys
      (.ok outcome, m)
    | .ok _ => (.error (.connection s.shard ("not an update: " ++ s.sql)), m)
    | .error e => (.error e, m)

/-- Runs a statement of either kind. -/
def execute (n : Nat) : Act Memory Outcome :=
  onOpen n fun s m =>
    let m := m.record s .execute [s.params]
    match m.respond s with
    | .ok (.rows columns rows) =>
      let (source, m) := m.openCursor columns rows
      (.ok (.rows source), m)
    | .ok (.update affected nativeKeys) =>
      let (outcome, m) := m.report s affected nativeKeys
      (.ok (.update outcome), m)
    | .error e => (.error e, m)

/-- Queues the bound parameters; afterwards none are bound. -/
def addBatch (n : Nat) : Act Memory Unit :=
  onOpen n fun s m =>
    (.ok (), m.setStatement n { s with params := [], batch := s.batch ++ [s.params] })

/-- Runs the queued entries; afterwards none are queued, also when the execution fails. -/
def executeBatch (n : Nat) : Act Memory (List UInt64) :=
  onOpen n fun s m =>
    let entries := s.batch
    let s := { s with batch := [] }
    let m := (m.setStatement n s).record s .batch entries
    match m.respond s with
    | .ok (.update affected nativeKeys) =>
      let counts := entries.map fun _ => affected
      if nativeKeys then
        let (batchKeys, m) := m.takeKeys s.shard (affected * UInt64.ofNat entries.length)
        (.ok counts, m.setStatement n { s with batchKeys })
      else (.ok counts, m)
    | .ok _ => (.error (.connection s.shard ("not an update: " ++ s.sql)), m)
    | .error e => (.error e, m)

/-- Takes the keys of the last batch. -/
def batchKeys (n : Nat) (m : Memory) : List Datum × Memory :=
  match m.statements[n]? with
  | none => ([], m)
  | some s => (s.batchKeys, m.setStatement n { s with batchKeys := [] })

/-- The provider of the shards in memory. -/
def provider : Provider Memory where
  connect := connect
  prepare := prepare
  bind := bind
  query := query
  update := update
  execute := execute
  addBatch := addBatch
  executeBatch := executeBatch
  batchKeys := batchKeys
  close := closeStatement
  closeCursor := closeCursor

end Memory

end Sharding
