import Sharding.Text.Hidden

/-!
# Quoted names

Messages show a name between double quotes, and a list of names between brackets.  A quote, a
backslash and the usual control characters are written with a backslash, and a hidden character is
written by its code point in hexadecimal, in the form u, brace, digits, brace.  Everything else
stands for itself.
-/

namespace Sharding

/-- The digits of `n` in lower-case hexadecimal, without leading zeros. -/
def hexDigits (n : Nat) : List Char :=
  Nat.toDigits 16 n

/-- One character as it stands between double quotes. -/
def quoteChar (c : Char) : List Char :=
  if c == '"' then ['\\', '"']
  else if c == '\\' then ['\\', '\\']
  else if c == '\n' then ['\\', 'n']
  else if c == '\r' then ['\\', 'r']
  else if c == '\t' then ['\\', 't']
  else if c.toNat == 0 then ['\\', '0']
  else if isHidden c then ['\\', 'u', '\x7b'] ++ hexDigits c.toNat ++ ['\x7d']
  else [c]

/-- A name between double quotes. -/
def quoteName (s : String) : String :=
  String.ofList ('"' :: s.toList.flatMap quoteChar ++ ['"'])

/-- A list of quoted names between brackets. -/
def quoteNames (names : List String) : String :=
  "[" ++ ", ".intercalate (names.map quoteName) ++ "]"

end Sharding
