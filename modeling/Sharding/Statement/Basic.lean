import Sharding.Datum.Basic
import Sharding.Statement.Shape

/-!
# Logical statements

A `Statement` is a parsed statement over logical tables: what it does, the tables it names, the
conditions on their columns, and its text as a template.  Values stand in it either as literals or
as references to bound parameters, and `Operand.resolve` looks them up.
-/

namespace Sharding

/-- A value of a statement. -/
inductive Operand where
  /-- A bound parameter, by its position. -/
  | parameter (index : Nat)
  | literal (value : Datum)
deriving DecidableEq

/-- The value of an operand under the bound parameters. -/
def Operand.resolve (params : List Datum) : Operand → Except RoutingCause Datum
  | literal value => .ok value
  | parameter index =>
    match params[index]? with
    | some value => .ok value
    | none => .error (.unboundParameter index params.length)

/-- A test on a column.  The bounds of `between` are inclusive, and a missing one does not bound. -/
inductive ColumnTest where
  | equal (value : Operand)
  | oneOf (values : List Operand)
  | between (lower upper : Option Operand)
deriving DecidableEq

/-- A condition on one column of one logical table. -/
structure Condition where
  table : String
  column : String
  test : ColumnTest
deriving DecidableEq

/-- The two kinds of queries. -/
inductive QueryKind where
  | select
  /-- An administrative query, such as one for the list of tables. -/
  | administration
deriving DecidableEq

/-- A statement that returns rows. -/
structure Query where
  kind : QueryKind
  template : Sql.Template
  tables : List String
  conditions : List Condition
  shape : QueryShape
deriving DecidableEq

/-- An insert of rows into one table. -/
structure Insert where
  text : String
  table : String
  columns : List String
  rows : List (List Operand)
  /-- The column whose values are drawn from a key generator when the insert does not list it. -/
  keyColumn : Option String
deriving DecidableEq

/-- An update or a delete. -/
structure Change where
  template : Sql.Template
  tables : List String
  conditions : List Condition
deriving DecidableEq

/-- Any other statement: it is routed by its tables alone. -/
structure Command where
  template : Sql.Template
  tables : List String
deriving DecidableEq

/-- A parsed statement. -/
inductive Statement where
  | query (q : Query)
  | insert (i : Insert)
  | update (c : Change)
  | delete (c : Change)
  | other (c : Command)
deriving DecidableEq

/-- The position of a column in an insert's column list. -/
def Insert.columnPosition? (i : Insert) (column : String) : Option Nat :=
  i.columns.findIdx? (sameName · column)

namespace Statement

/-- The logical tables of a statement. -/
def tables : Statement → List String
  | query q => q.tables
  | insert i => [i.table]
  | update c | delete c => c.tables
  | other c => c.tables

/-- Whether the statement returns rows. -/
def isQuery : Statement → Bool
  | query _ => true
  | _ => false

/-- Whether the statement is a select. -/
def isSelect : Statement → Bool
  | query q => q.kind == .select
  | _ => false

/-- The insert that a statement is. -/
def asInsert? : Statement → Option Insert
  | insert i => some i
  | _ => none

/-- Whether the statement is an insert. -/
def isInsert (s : Statement) : Bool :=
  s.asInsert?.isSome

/-- The shape of a query. -/
def shape? : Statement → Option QueryShape
  | query q => some q.shape
  | _ => none

/-- The logical text of a statement. -/
def text : Statement → String
  | query q => q.template.text
  | insert i => i.text
  | update c | delete c => c.template.text
  | other c => c.template.text

/-- The name of a statement's kind in messages. -/
def kindName : Statement → String
  | query q => match q.kind with
    | .select => "select"
    | .administration => "dal"
  | insert _ => "insert"
  | update _ => "update"
  | delete _ => "delete"
  | other _ => "other"

end Statement

end Sharding
