import Sharding.Number.Decimal
import Sharding.Text.Quoted

/-!
# Tokens of a statement's text

A token marks a stretch of a statement's text that depends on where the statement runs: the name
of a logical table, the end of a select list where derived columns are appended, or the
pagination clause.  Positions and lengths are in bytes of UTF-8.
-/

namespace Sharding.Sql

/-- A marked stretch of a statement's text. -/
inductive Token where
  /-- The name of a logical table, to be replaced by the name of an actual one. -/
  | table (offset length : Nat) (logical : String)
  /-- The end of the select list. -/
  | derived (offset : Nat)
  /-- The pagination clause. -/
  | pagination (offset length : Nat)
deriving DecidableEq

namespace Token

/-- Where the token starts. -/
def offset : Token → Nat
  | table o _ _ => o
  | derived o => o
  | pagination o _ => o

/-- How many bytes the token covers. -/
def length : Token → Nat
  | table _ n _ => n
  | derived _ => 0
  | pagination _ n => n

/-- Where the token ends. -/
def stop (t : Token) : Nat :=
  t.offset + t.length

/-- The text of a token in messages. -/
def describe : Token → String
  | table o n logical =>
    "Table \x7b offset: " ++ natText o ++ ", len: " ++ natText n ++ ", logical: " ++
      quoteName logical ++ " \x7d"
  | derived o => "DerivedItems \x7b offset: " ++ natText o ++ " \x7d"
  | pagination o n =>
    "Pagination \x7b offset: " ++ natText o ++ ", len: " ++ natText n ++ " \x7d"
where
  natText (n : Nat) : String := intText n

end Token

end Sharding.Sql
