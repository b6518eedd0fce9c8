import Sharding.Text.Hex
import Sharding.Calendar
import Sharding.Number.Double
import Sharding.Number.Shortest

/-!
# Scalar values

`Datum` is a single scalar: bound parameters, columns of rows and generated keys are datums.  This
module has the type, the name of each kind, the two texts of a datum and its readings as a number.

* `Datum.display` is the text a person reads: text stands for itself, and bytes are written in
  hexadecimal.
* `Datum.literal` is the text that stands for the value inside a statement: text, dates and
  instants are quoted, and a quote inside a text is written twice.
-/

namespace Sharding

/-- A scalar value. -/
inductive Datum where
  | null
  | boolean (b : Bool)
  | int32 (n : Int32)
  | int64 (n : Int64)
  | float64 (x : Double)
  | decimal (d : Decimal)
  | text (s : String)
  /-- Microseconds from the start of 1970. -/
  | timestamp (micros : Int64)
  /-- Days from the start of 1970. -/
  | date (days : Int32)
  | bytea (bytes : List UInt8)
deriving DecidableEq

/-- A row is a list of datums. -/
abbrev Row := List Datum

/-- The text with each quote written twice. -/
def doubleQuotes (cs : List Char) : List Char :=
  cs.flatMap fun c => if c = '\'' then ['\'', '\''] else [c]

/-- The text between quotes, each quote inside it written twice. -/
def quoted (s : String) : String :=
  String.ofList ('\'' :: doubleQuotes s.toList ++ ['\''])

namespace Datum

instance : Inhabited Datum := ⟨null⟩

/-- The name of a datum's kind. -/
def kindName : Datum → String
  | null => "null"
  | boolean _ => "boolean"
  | int32 _ => "int32"
  | int64 _ => "int64"
  | float64 _ => "float64"
  | decimal _ => "decimal"
  | text _ => "text"
  | timestamp _ => "timestamp"
  | date _ => "date"
  | bytea _ => "bytea"

/-- Whether the datum is the null value. -/
def isNull : Datum → Bool
  | null => true
  | _ => false

/-- The datum as an integer of 64 bits; only integers of either width are one. -/
def toInt64? : Datum → Option Int64
  | int32 n => some n.toInt64
  | int64 n => some n
  | _ => none

/-- The datum as a float; numbers of every kind are one. -/
def toFloat? : Datum → Option Float
  | int32 n => some (Float.ofInt n.toInt)
  | int64 n => some (Float.ofInt n.toInt)
  | float64 x => some x.value
  | decimal d => some d.toFloat
  | _ => none

/-- The datum as a text; only texts are one. -/
def toText? : Datum → Option String
  | text s => some s
  | _ => none

/-- The text of a datum for a reader. -/
def display : Datum → String
  | null => "NULL"
  | boolean b => if b then "true" else "false"
  | int32 n => intText n.toInt
  | int64 n => intText n.toInt
  | float64 x => floatText x.value
  | decimal d => d.text
  | text s => s
  | timestamp micros => Calendar.instantText micros.toInt
  | date days => Calendar.dayText days.toInt
  | bytea bytes => "\\x" ++ hexText bytes

/-- The text of a datum inside a statement. -/
def literal : Datum → String
  | null => "NULL"
  | boolean b => if b then "TRUE" else "FALSE"
  | text s => quoted s
  | timestamp micros => "'" ++ display (timestamp micros) ++ "'"
  | date days => "'" ++ display (date days) ++ "'"
  | bytea bytes => "X'" ++ hexText bytes ++ "'"
  | other => other.display

end Datum

/-- The text of a row: its values between parentheses. -/
def Row.display (row : Row) : String :=
  "(" ++ ", ".intercalate (row.map Datum.display) ++ ")"

end Sharding
