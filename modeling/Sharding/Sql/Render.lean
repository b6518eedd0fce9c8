import Sharding.Error
import Sharding.Sql.Template

/-!
# Physical statements from templates

`Template.render` writes the text of one physical statement: it copies the template's text and
puts something in the place of each token.

* A table's name gives way to the actual table that the substitution names for it.
* Derived columns are written after the select list.
* The pagination clause is kept, widened to start at the first row, or dropped together with the
  white space in front of it.

The tokens are taken in the order in which the template lists them.  Each has to start where the
one before it ended or later, to end inside the text, and to cut no character.
-/

namespace Sharding.Sql

/-- The rows of a result that a query asks for: `rowCount` rows after the first `offset`. -/
structure Pagination where
  offset : UInt64
  rowCount : UInt64
deriving DecidableEq

/-- A column that a physical query selects in addition to those the caller asked for. -/
structure DerivedColumn where
  expression : String
  label : String
deriving DecidableEq

/-- What becomes of a pagination clause. -/
inductive PageClause where
  /-- It stays as written. -/
  | keep
  /-- It asks for all rows up to the end of the page. -/
  | widen (page : Pagination)
  /-- It is removed. -/
  | drop
deriving DecidableEq

/-- What a physical statement puts in the place of tokens. -/
structure Substitution where
  /-- Pairs of a logical table and the actual table that stands for it. -/
  tables : List (String × String)
  derived : List DerivedColumn
  page : PageClause

/-- The actual table of a logical one. -/
def Substitution.actual? (s : Substitution) (logical : String) : Option String :=
  (s.tables.find? fun pair => sameName pair.1 logical).map (·.2)

/-- The number of rows up to the end of a page, if it is a number of 64 bits. -/
def Pagination.stop? (p : Pagination) : Option Nat :=
  let stop := p.offset.toNat + p.rowCount.toNat
  if stop < 18446744073709551616 then some stop else none

/-- The text of a derived column behind a select list. -/
def DerivedColumn.text (d : DerivedColumn) : String :=
  ", " ++ d.expression ++ " AS " ++ d.label

/-- The text `written` so far, continued by what stands in the place of a pagination clause. -/
def PageClause.apply (clause : PageClause) (written piece : List Char) : List Char :=
  match clause with
  | keep => written ++ piece
  | drop => trimEnd written
  | widen page =>
    match page.stop? with
    | some stop => written ++ ("LIMIT " ++ natText stop).toList
    | none => trimEnd written

/-- The text `written` so far, continued by what stands in the place of a token that covers
`piece`. -/
def Substitution.apply (s : Substitution) (token : Token) (written piece : List Char) :
    Except RoutingCause (List Char) :=
  match token with
  | .table _ _ logical =>
    match s.actual? logical with
    | some actual => .ok (written ++ actual.toList)
    | none => .error (.noActualTable logical)
  | .derived _ => .ok (written ++ (s.derived.flatMap fun d => d.text.toList))
  | .pagination _ _ => .ok (s.page.apply written piece)

/-- The text between the position `cursor` and a token, the text the token covers, and the text
behind it.  `rest` is the text from `cursor` on. -/
def cutToken (cursor : Nat) (rest : List Char) (token : Token) :
    Option (List Char × List Char × List Char) := do
  if token.offset < cursor then none
  let (gap, rest) ← splitAtByte (token.offset - cursor) rest
  let (piece, rest) ← splitAtByte token.length rest
  return (gap, piece, rest)

namespace Template

/-- Renders the text `rest`, which starts at the position `cursor`, behind what is written. -/
def renderFrom (text : String) (s : Substitution) (cursor : Nat) (rest written : List Char) :
    List Token → Except RoutingCause (List Char)
  | [] => .ok (written ++ rest)
  | token :: tokens =>
    match cutToken cursor rest token with
    | none => .error (.malformedTemplate token text)
    | some (gap, piece, rest) => do
      let written ← s.apply token (written ++ gap) piece
      renderFrom text s token.stop rest written tokens

/-- The text of the physical statement of a substitution. -/
def render (t : Template) (s : Substitution) : Except RoutingCause String := do
  let chars ← renderFrom t.text s 0 t.text.toList [] t.tokens
  return String.ofList chars

end Template

/-- The text of an insert of some rows of value texts. -/
def insertText (table : String) (columns : List String) (rows : List (List String)) : String :=
  "INSERT INTO " ++ table ++ " (" ++ ", ".intercalate columns ++ ") VALUES " ++
    ", ".intercalate (rows.map fun row => "(" ++ ", ".intercalate row ++ ")")

end Sharding.Sql
