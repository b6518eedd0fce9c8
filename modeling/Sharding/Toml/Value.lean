import Sharding.Toml.Lexeme

/-!
# Values of TOML

A `Value` is what stands behind a key.  Strings, integers and booleans keep their value; of floats
and of dates and times only the kind is kept.

A table remembers how it came about, because that decides what may still be added to it.  Keys
may be dotted: `a.b = 1` puts `b` into the table `a`.  A table that was made by dotted keys can be
extended by dotted keys only, one that was made by a header only below headers, and one between
braces not at all.

`Entries.insert?` follows these rules, and `value?` reads a value.
-/

namespace Sharding.Toml

/-- How a table came about. -/
inductive Origin where
  /-- By a header of its own, or it is the document. -/
  | header
  /-- By the header of a table below it. -/
  | implied
  /-- By a dotted key. -/
  | dotted
  /-- Between braces. -/
  | inline
deriving DecidableEq

/-- What stands behind a key. -/
inductive Value where
  | text (s : String)
  | integer (n : Int)
  | float
  | boolean (b : Bool)
  | dateTime
  | array (items : List Value)
  | table (origin : Origin) (entries : List (String × Value))
  /-- The tables of an array made by headers; the last one can still be extended. -/
  | tables (before : List (List (String × Value))) (last : List (String × Value))

/-- The entries of a table; no key occurs twice. -/
abbrev Entries := List (String × Value)

namespace Entries

/-- Sets the value of a key, which keeps its place. -/
def set (es : Entries) (key : String) (v : Value) : Entries :=
  if es.any (·.1 == key) then es.map fun (k, w) => if k == key then (k, v) else (k, w)
  else es ++ [(key, v)]

/-- Whether a table can be walked through by a dotted key, or else by a header. -/
def passable (dotted : Bool) : Origin → Bool
  | .header => !dotted
  | .implied | .dotted => true
  | .inline => false

/-- Changes the table at the end of a path.  Tables that are missing on the way are made; the last
table of an array stands for the array. -/
def modifyAt (dotted : Bool) (change : Origin → Entries → Option Entries) :
    List String → Origin → Entries → Option Entries
  | [], origin, es => change origin es
  | key :: path, _, es =>
    let made : Origin := if dotted then .dotted else .implied
    match es.lookup key with
    | none => do
      let sub ← modifyAt dotted change path made []
      return es.set key (.table made sub)
    | some (.table origin sub) =>
      if passable dotted origin then do
        let sub ← modifyAt dotted change path origin sub
        return es.set key (.table origin sub)
      else none
    | some (.tables before last) => do
      let last ← modifyAt dotted change path .header last
      return es.set key (.tables before last)
    | some _ => none

/-- Adds a value under a key.  A dotted key may add only to tables that dotted keys have made, and a
plain key only to others. -/
def insert? (origin : Origin) (es : Entries) (path : List String) (key : String) (v : Value) :
    Option Entries :=
  modifyAt true (fun origin es =>
    if (origin == .dotted) == path.isEmpty || es.any (·.1 == key) then none
    else some (es ++ [(key, v)])) path origin es

end Entries

/-! ## Keys -/

/-- A character of a key that is not quoted. -/
def isBare (c : Char) : Bool :=
  c.isAlphanum || c == '-' || c == '_'

/-- Reads one part of a key. -/
def keyPart? : Read String
  | [] => none
  | c :: rest =>
    if c = '"' ∨ c = '\'' then string? (c :: rest)
    else
      match (c :: rest).span isBare with
      | ([], _) => none
      | (cs, rest) => some (String.ofList cs, rest)

/-- The number of parts of a key, and the depth of values, are less than this. -/
def depthLimit : Nat := 80

/-- Reads the parts of a key, with blanks around them. -/
def keyParts? : (fuel : Nat) → Read (List String)
  | 0, _ => none
  | fuel + 1, cs => do
    let (part, rest) ← keyPart? (skipWhite cs)
    match skipWhite rest with
    | '.' :: rest =>
      let (parts, rest) ← keyParts? fuel rest
      return (part :: parts, rest)
    | rest => return ([part], rest)

/-- Reads a key: the path of tables that it names, and its last part. -/
def key? (cs : List Char) : Option ((List String × String) × List Char) := do
  let (parts, rest) ← keyParts? (depthLimit - 1) cs
  return ((parts.dropLast, ← parts.getLast?), rest)

/-! ## Values -/

/-- Reads a boolean. -/
def boolean? : Read Bool
  | 't' :: 'r' :: 'u' :: 'e' :: rest => some (true, rest)
  | 'f' :: 'a' :: 'l' :: 's' :: 'e' :: rest => some (false, rest)
  | _ => none

/-- Reads a value that has no parts. -/
def scalar (cs : List Char) : Option (Value × List Char) :=
  ((text? cs).map fun (s, rest) => (.text s, rest)) <|>
  ((boolean? cs).map fun (b, rest) => (.boolean b, rest)) <|>
  ((dateTime? cs).map fun (_, rest) => (.dateTime, rest)) <|>
  ((float? cs).map fun (_, rest) => (.float, rest)) <|>
  ((integer? cs).map fun (n, rest) => (.integer n, rest))

mutual

/-- Reads a value; `depth` is how many more levels it may have. -/
def valueFrom? : (fuel depth : Nat) → Read Value
  | 0, _, _ => none
  | fuel + 1, depth, cs =>
    match cs, depth with
    | '[' :: rest, depth + 1 =>
      (items? fuel depth rest).map fun (items, rest) => (.array items, rest)
    | '\x7b' :: rest, depth + 1 =>
      match skipWhite rest with
      | '\x7d' :: rest => some (.table .inline [], rest)
      | rest => (fields? fuel depth [] rest).map fun (es, rest) => (.table .inline es, rest)
    | '[' :: _, 0 | '\x7b' :: _, 0 => none
    | cs, _ => scalar cs

/-- Reads the rest of an array: values with commas between them, and perhaps one behind the last. -/
def items? : (fuel depth : Nat) → Read (List Value)
  | 0, _, _ => none
  | fuel + 1, depth, cs => do
    match ← skipLines (cs.length + 1) cs with
    | ']' :: rest => return ([], rest)
    | cs =>
      let (v, rest) ← valueFrom? fuel depth cs
      match ← skipLines (rest.length + 1) rest with
      | ',' :: rest =>
        let (vs, rest) ← items? fuel depth rest
        return (v :: vs, rest)
      | ']' :: rest => return ([v], rest)
      | _ => none

/-- Reads the rest of a table between braces, of which some entries are known. -/
def fields? : (fuel depth : Nat) → Entries → Read Entries
  | 0, _, _, _ => none
  | fuel + 1, depth, es, cs => do
    let ((path, key), rest) ← key? cs
    match rest with
    | '=' :: rest =>
      let (v, rest) ← valueFrom? fuel depth (skipWhite rest)
      let es ← es.insert? .inline path key v
      match skipWhite rest with
      | ',' :: rest => fields? fuel depth es rest
      | '\x7d' :: rest => return (es, rest)
      | _ => none
    | _ => none

end

/-- Reads a value.  Every level of it takes characters of its own. -/
def value? (cs : List Char) : Option (Value × List Char) :=
  valueFrom? (2 * cs.length + 2) (depthLimit - 1) cs

end Sharding.Toml
