import Sharding.Config.Basic
import Sharding.Toml.Document

/-!
# Configuration documents

`Config.parse` reads a configuration from a TOML document.  The document has the sections
`executor`, `merge` and `keygen` and the field `sql_show`.  What is missing has its default, and
what is unknown is passed over.  A section may also be given as an array of its values in the order
of the fields.

The default number of workers is the number of processors, which is an argument here.
-/

namespace Sharding

open Toml (Value Entries)

namespace Config

/-- The values of a section's fields. -/
def sectionFields? (names : List String) : Option Value → Option (List (Option Value))
  | none | some .dateTime => some (names.map fun _ => none)
  | some (.table _ es) => some (names.map fun name => es.lookup name)
  | some (.array items) => some ((List.range names.length).map fun i => items[i]?)
  | some _ => none

/-- The value of a field that holds a natural number. -/
def natural? (default : Nat) : Option Value → Option Nat
  | none => some default
  | some (.integer n) => if 0 ≤ n then some n.toNat else none
  | some _ => none

/-- The value of a field that holds a boolean. -/
def flag? : Option Value → Option Bool
  | none => some false
  | some (.boolean b) => some b
  | some _ => none

/-- The configuration with all defaults. -/
def standard (processors : Nat) : Config :=
  { executorSize := processors }

/-- The configuration that the entries of a document give. -/
def ofEntries? (processors : Nat) (es : Entries) : Option Config := do
  let base := standard processors
  let executor ← sectionFields? ["executor_size", "max_connections_per_query"]
    (es.lookup "executor")
  let merge ← sectionFields? ["max_rows_buffered"] (es.lookup "merge")
  let keygen ← sectionFields? ["worker_id", "max_tolerate_time_difference_ms"]
    (es.lookup "keygen")
  return {
    executorSize := ← natural? base.executorSize executor[0]?.join
    maxConnections := ← natural? base.maxConnections executor[1]?.join
    maxRows := ← natural? base.maxRows merge[0]?.join
    workerId := ← natural? base.workerId keygen[0]?.join
    clockTolerance := ← natural? base.clockTolerance keygen[1]?.join
    showSql := ← flag? (es.lookup "sql_show") }

/-- Reads and validates a configuration. -/
def parse (processors : Nat) (text : String) : Except ConfigCause Config :=
  match Toml.document? text >>= ofEntries? processors with
  | none => .error .malformedDocument
  | some c => c.validate.map fun _ => c

/-- The configuration of a file that may be missing.  When the file cannot be used, everything has
its default. -/
def load (processors : Nat) (text : Option String) : Config :=
  match text.map (parse processors) with
  | some (.ok c) => c
  | _ => standard processors

end Config

end Sharding
