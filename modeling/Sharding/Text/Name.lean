/-!
# Names that ignore ASCII case

Table and column names are matched without regard to the case of ASCII letters.  `foldCase`
lowers ASCII capitals and leaves every other character alone, so it keeps the length of a text in
characters and in bytes, and `sameName` compares two names through it.

`isWordChar` is the class of characters that make up a bare identifier.  It decides where a table
name ends inside a statement.
-/

namespace Sharding

/-- The characters of `s` with ASCII capitals lowered. -/
def foldCase (s : String) : List Char :=
  s.toList.map Char.toLower

/-- The text `s` with ASCII capitals lowered. -/
def lowerCase (s : String) : String :=
  String.ofList (foldCase s)

/-- Two names are the same when they differ at most in the case of ASCII letters. -/
def sameName (a b : String) : Bool :=
  foldCase a == foldCase b

/-- The characters of an identifier: ASCII letters, ASCII digits and the underscore. -/
def isWordChar (c : Char) : Bool :=
  c.isAlphanum || c == '_'

@[simp] theorem sameName_iff {a b : String} : sameName a b = true ↔ foldCase a = foldCase b := by
  simp [sameName]

theorem sameName_refl (a : String) : sameName a a = true := by
  simp

end Sharding
