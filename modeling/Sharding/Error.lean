import Sharding.Distinct
import Sharding.Session.Phase
import Sharding.Sql.Token

/-!
# Errors

An `Error` belongs to one of nine kinds.  The kinds that arise inside this library carry their
cause as a value, and `Error.message` is the one place where a cause gets its wording.  The cause
`described` is for text that comes from outside, such as the message of a custom sharding rule.

`Error.responsibility` says whom an error concerns: the caller, who should change the call; a
shard, so that the same call may succeed later; or this library.

An execution error carries one `UnitFailure` for each route unit that failed, in unit order
(`Error.ofFailures`).
-/

namespace Sharding

/-- A natural number in decimal. -/
def natText (n : Nat) : String :=
  intText n

/-- Why a statement cannot be routed. -/
inductive RoutingCause where
  | unboundParameter (index bound : Nat)
  | noRule (table : String)
  | noDataNodes (table : String)
  | nullShardingValue (table : String)
  | noShards
  | noTables
  | noMatchingNode (table column : String)
  | bindingCounts (first other : String)
  | bindingShards (first other : String) (position : Nat)
  | noCommonNode
  | noSharedShard (tables : List String)
  | noNodeForStatement (sql : String)
  | insertWithoutRows (table : String)
  | raggedRow (row values columns : Nat)
  | rowTargets (row : Nat) (table : String) (nodes : Nat)
  | noShardingColumn (table : String)
  | malformedTemplate (token : Sql.Token) (text : String)
  | noActualTable (logical : String)
  | described (text : String)
deriving DecidableEq

/-- Why the results of several units cannot be merged. -/
inductive MergeCause where
  | columnsDiffer (unit : Nat) (found expected : List String)
  | tooFewColumns (found expected : Nat)
  | sortColumnMissing (column : String) (columns : List String)
  | derivedColumnMissing (label : String)
  | notAddable (value sum : String) (column : Nat)
  | tooManyRows (limit : Nat)
  | batchCounts (shard : String) (found expected : Nat)
  | mixedResults (cursors updates : Nat)
  | described (text : String)
deriving DecidableEq

/-- Why a call does not fit the state it was made in. -/
inductive StateCause where
  | resultSetClosed
  | statementClosed
  | nothingPrepared
  | unitNotPrepared (unit : Nat)
  | unknownStatement (number : Nat)
  | noResultSet (phase : Phase)
  | described (text : String)
deriving DecidableEq

/-- Why an operation is not supported. -/
inductive UnsupportedCause where
  | queryOn (kind : String)
  | updateOnQuery
  | batchOnQuery
  | unorderedNativeKeys (units : Nat)
  | described (text : String)
deriving DecidableEq

/-- Why a configuration is refused. -/
inductive ConfigCause where
  | executorSize
  | maxConnections
  | maxRows
  | workerId (id : Nat)
  | generatorWorkerId (id : Nat)
  | malformedDocument
  | described (text : String)
deriving DecidableEq

/-- What should never happen. -/
inductive BugCause where
  | clockBackwards (behind last now : Nat)
  | clockStillBehind (last now : Nat)
  | workerCrashed (unit : Nat) (shard : String)
  | insertColumn (table : String) (position : Nat)
  | described (code text context : String)
deriving DecidableEq

/-- The failure of one route unit. -/
structure UnitFailure (ε : Type) where
  unit : Nat
  shard : String
  sql : String
  error : ε
deriving DecidableEq

/-- An error of this library. -/
inductive Error where
  /-- Raised before any physical call is made. -/
  | routing (cause : RoutingCause)
  /-- Some route units failed, out of `total`. -/
  | execution (failures : List (UnitFailure Error)) (total : Nat)
  /-- The shapes of the results of several units cannot be merged. -/
  | merge (cause : MergeCause)
  | unsupported (cause : UnsupportedCause)
  /-- The caller used a statement in a state that does not allow the call. -/
  | state (cause : StateCause)
  /-- Raised by a connection or a physical statement. -/
  | connection (shard text : String)
  | cancelled
  | config (cause : ConfigCause)
  | bug (cause : BugCause)

/-! ## Wording -/

/-- The name of a unit in messages. -/
def unitName (unit : Nat) : String :=
  "unit:" ++ natText unit

/-- The name of a queued batch call in messages. -/
def batchCallName (call : Nat) : String :=
  "batch_call:" ++ natText call

/-- The wording of a routing cause. -/
def RoutingCause.message : RoutingCause → String
  | unboundParameter index bound =>
    "parameter " ++ natText index ++ " is not bound (" ++ natText bound ++ " bound)"
  | noRule table => "no sharding rule for table '" ++ table ++ "'"
  | noDataNodes table => "table '" ++ table ++ "' has no data nodes"
  | nullShardingValue table => "NULL sharding value for table '" ++ table ++ "'"
  | noShards => "no shard configured"
  | noTables => "statement references no table"
  | noMatchingNode table column =>
    "sharding conditions on '" ++ table ++ "." ++ column ++ "' match no data node"
  | bindingCounts first other =>
    "binding tables '" ++ first ++ "' and '" ++ other ++ "' have different node counts"
  | bindingShards first other position =>
    "binding tables '" ++ first ++ "' and '" ++ other ++ "' disagree on shard at position " ++
      natText position
  | noCommonNode => "sharding conditions on binding tables match no common data node"
  | noSharedShard tables => "tables " ++ quoteNames tables ++ " share no shard"
  | noNodeForStatement sql => "statement resolved to no data node: " ++ sql
  | insertWithoutRows table => "INSERT into '" ++ table ++ "' has no rows"
  | raggedRow row values columns =>
    "INSERT row " ++ natText row ++ " has " ++ natText values ++ " values for " ++
      natText columns ++ " columns"
  | rowTargets row table nodes =>
    "INSERT row " ++ natText row ++ " of '" ++ table ++ "' resolves to " ++ natText nodes ++
      " data nodes"
  | noShardingColumn table =>
    "INSERT into sharded table '" ++ table ++ "' must supply its sharding column"
  | malformedTemplate token text =>
    "malformed SQL template: token " ++ token.describe ++ " out of place in '" ++ text ++ "'"
  | noActualTable logical => "no actual table for '" ++ logical ++ "' in this route unit"
  | described text => text

/-- The wording of a merge cause. -/
def MergeCause.message : MergeCause → String
  | columnsDiffer unit found expected =>
    "unit " ++ natText unit ++ " returned columns " ++ quoteNames found ++ ", expected " ++
      quoteNames expected
  | tooFewColumns found expected =>
    "shard cursors expose " ++ natText found ++ " columns, query projects " ++ natText expected
  | sortColumnMissing column columns =>
    "sort column " ++ column ++ " not found in shard columns " ++ quoteNames columns
  | derivedColumnMissing label => "derived column " ++ label ++ " not found"
  | notAddable value sum column =>
    "cannot add " ++ value ++ " to " ++ sum ++ " while merging column " ++ natText column ++
      ": non-numeric or overflow"
  | tooManyRows limit => "group merge exceeded max_rows_buffered (" ++ natText limit ++ ")"
  | batchCounts shard found expected =>
    "batch on " ++ shard ++ " returned " ++ natText found ++ " counts for " ++ natText expected ++
      " parameter sets"
  | mixedResults cursors updates =>
    natText cursors ++ " units returned rows and " ++ natText updates ++ " returned update counts"
  | described text => text

/-- The wording of a state cause. -/
def StateCause.message : StateCause → String
  | resultSetClosed => "result set is closed"
  | statementClosed => "statement is closed"
  | nothingPrepared => "no prepared route units"
  | unitNotPrepared unit => unitName unit ++ " is not prepared"
  | unknownStatement number => "statement " ++ natText number ++ " is not known"
  | noResultSet phase => "no result set in phase " ++ phase.name
  | described text => text

/-- The wording of an unsupported operation. -/
def UnsupportedCause.message : UnsupportedCause → String
  | queryOn kind => "execute_query on a " ++ kind ++ " statement"
  | updateOnQuery => "execute_update on a query statement"
  | batchOnQuery => "add_batch on a query statement"
  | unorderedNativeKeys units =>
    "native generated keys of an INSERT spanning " ++ natText units ++
      " route units cannot be ordered"
  | described text => text

/-- The wording of a configuration cause.  A document that cannot be read has the wording of its
reader, which is not part of this library. -/
def ConfigCause.message : ConfigCause → String
  | executorSize => "executor.executor_size must be > 0"
  | maxConnections => "executor.max_connections_per_query must be > 0"
  | maxRows => "merge.max_rows_buffered must be > 0"
  | workerId id => "keygen.worker_id " ++ natText id ++ " out of range 0..=1023"
  | generatorWorkerId id => "snowflake worker id " ++ natText id ++ " out of range 0..=1023"
  | malformedDocument => "malformed configuration document"
  | described text => text

/-- The code, the wording and the circumstances of a bug. -/
def BugCause.parts : BugCause → String × String × String
  | clockBackwards behind last now =>
    ("KEYGEN_CLOCK_BACKWARDS", "clock moved backwards by " ++ natText behind ++ "ms",
      "last_ms=" ++ natText last ++ " now=" ++ natText now)
  | clockStillBehind last now =>
    ("KEYGEN_CLOCK_BACKWARDS", "clock still behind after tolerated wait",
      "last_ms=" ++ natText last ++ " now=" ++ natText now)
  | workerCrashed unit shard =>
    ("E-EXEC-001", "worker thread panicked during dispatch",
      "unit=" ++ unitName unit ++ " shard=" ++ shard)
  | insertColumn table position =>
    ("ROUTE_INSERT_COLUMN", "sharding column position beyond row",
      "table=" ++ table ++ " pos=" ++ natText position)
  | described code text context => (code, text, context)

/-- The wording of a bug. -/
def BugCause.message (cause : BugCause) : String :=
  let (code, text, context) := cause.parts
  "InternalBug [" ++ code ++ "]: " ++ text ++ " | context: " ++ context

mutual

/-- The wording of an error. -/
def Error.message : Error → String
  | .routing cause => "Routing error: " ++ cause.message
  | .execution failures total =>
    "Execution error: " ++ natText failures.length ++ " of " ++ natText total ++
      " route units failed" ++ (if failures.isEmpty then "" else ": ") ++
      "; ".intercalate (failureMessages failures)
  | .merge cause => "Merge error: " ++ cause.message
  | .unsupported cause => "Unsupported operation: " ++ cause.message
  | .state cause => "State error: " ++ cause.message
  | .connection shard text => "Connection error on " ++ shard ++ ": " ++ text
  | .cancelled => "Cancelled before dispatch"
  | .config cause => "Config error: " ++ cause.message
  | .bug cause => cause.message

/-- The wordings of a list of failures. -/
def failureMessages : List (UnitFailure Error) → List String
  | [] => []
  | failure :: rest => failureMessage failure :: failureMessages rest

/-- The wording of one failure: its unit, its shard and the error. -/
def failureMessage : UnitFailure Error → String
  | ⟨unit, shard, _, error⟩ => unitName unit ++ " on " ++ shard ++ ": " ++ error.message

end

/-! ## Classes and failures -/

/-- Whom an error concerns. -/
inductive Responsibility where
  /-- The caller, who should change the call. -/
  | caller
  /-- A shard: the same call may succeed later. -/
  | transient
  /-- This library. -/
  | library
deriving DecidableEq

/-- Whom an error concerns. -/
def Error.responsibility : Error → Responsibility
  | routing _ | unsupported _ | state _ | config _ | cancelled => .caller
  | execution _ _ | connection _ _ => .transient
  | merge _ | bug _ => .library

/-- The execution error of some failures: the failures in unit order, those of one unit in the
order given. -/
def Error.ofFailures (failures : List (UnitFailure Error)) (total : Nat) : Error :=
  .execution (failures.mergeSort fun a b => a.unit ≤ b.unit) total

/-- The failures that an error carries. -/
def Error.failures : Error → List (UnitFailure Error)
  | execution failures _ => failures
  | _ => []

/-- The shards of some failures, each once, in the order of the failures. -/
def failedShards (failures : List (UnitFailure Error)) : List String :=
  distinct (failures.map (·.shard))

/-! ## Deciding equality -/

mutual

/-- Equality of errors is decidable. -/
def Error.decEq : (a b : Error) → Decidable (a = b)
  | .routing a, b => match b with
    | .routing b => decidable_of_iff (a = b) (by simp)
    | .execution _ _ | .merge _ | .unsupported _ | .state _ | .connection _ _ | .cancelled
    | .config _ | .bug _ => isFalse (by simp)
  | .execution as m, b => match b with
    | .execution bs n =>
      match decEqFailures as bs with
      | isTrue h => decidable_of_iff (m = n) (by simp [h])
      | isFalse h => isFalse (by simp [h])
    | .routing _ | .merge _ | .unsupported _ | .state _ | .connection _ _ | .cancelled
    | .config _ | .bug _ => isFalse (by simp)
  | .merge a, b => match b with
    | .merge b => decidable_of_iff (a = b) (by simp)
    | .routing _ | .execution _ _ | .unsupported _ | .state _ | .connection _ _ | .cancelled
    | .config _ | .bug _ => isFalse (by simp)
  | .unsupported a, b => match b with
    | .unsupported b => decidable_of_iff (a = b) (by simp)
    | .routing _ | .execution _ _ | .merge _ | .state _ | .connection _ _ | .cancelled
    | .config _ | .bug _ => isFalse (by simp)
  | .state a, b => match b with
    | .state b => decidable_of_iff (a = b) (by simp)
    | .routing _ | .execution _ _ | .merge _ | .unsupported _ | .connection _ _ | .cancelled
    | .config _ | .bug _ => isFalse (by simp)
  | .connection s a, b => match b with
    | .connection t b => decidable_of_iff (s = t ∧ a = b) (by simp)
    | .routing _ | .execution _ _ | .merge _ | .unsupported _ | .state _ | .cancelled
    | .config _ | .bug _ => isFalse (by simp)
  | .cancelled, b => match b with
    | .cancelled => isTrue rfl
    | .routing _ | .execution _ _ | .merge _ | .unsupported _ | .state _ | .connection _ _
    | .config _ | .bug _ => isFalse (by simp)
  | .config a, b => match b with
    | .config b => decidable_of_iff (a = b) (by simp)
    | .routing _ | .execution _ _ | .merge _ | .unsupported _ | .state _ | .connection _ _
    | .cancelled | .bug _ => isFalse (by simp)
  | .bug a, b => match b with
    | .bug b => decidable_of_iff (a = b) (by simp)
    | .routing _ | .execution _ _ | .merge _ | .unsupported _ | .state _ | .connection _ _
    | .cancelled | .config _ => isFalse (by simp)

/-- Equality of lists of failures is decidable. -/
def decEqFailures : (a b : List (UnitFailure Error)) → Decidable (a = b)
  | [], [] => isTrue rfl
  | [], _ :: _ => isFalse (by simp)
  | _ :: _, [] => isFalse (by simp)
  | a :: as, b :: bs =>
    match decEqFailure a b, decEqFailures as bs with
    | isTrue h, isTrue h' => isTrue (by rw [h, h'])
    | isFalse h, _ => isFalse (by simp [h])
    | _, isFalse h => isFalse (by simp [h])

/-- Equality of failures is decidable. -/
def decEqFailure : (a b : UnitFailure Error) → Decidable (a = b)
  | ⟨unit, shard, sql, error⟩, ⟨unit', shard', sql', error'⟩ =>
    match Error.decEq error error' with
    | isTrue h =>
      decidable_of_iff (unit = unit' ∧ shard = shard' ∧ sql = sql') (by simp [h])
    | isFalse h => isFalse (by simp [h])

end

instance : DecidableEq Error := Error.decEq

instance : Inhabited Error := ⟨.cancelled⟩

end Sharding
