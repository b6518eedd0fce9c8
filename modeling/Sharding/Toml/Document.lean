import Sharding.Toml.Value

/-!
# Documents of TOML

A document is a sequence of lines.  A line assigns a value to a key, or is a header, which says what
table the keys of the lines below it belong to.  A header between single brackets names a table,
and one between double brackets adds a table to an array.  `document?` reads a document; it fails
when a line cannot be read, or when a table or a key is given twice.
-/

namespace Sharding.Toml

/-- What a line says. -/
inductive Line where
  | blank
  | header (path : List String) (key : String)
  | arrayHeader (path : List String) (key : String)
  | assignment (path : List String) (key : String) (v : Value)

/-- Reads one line, without the characters that end it. -/
def lineBody? : Read Line
  | [] => some (.blank, [])
  | '[' :: '[' :: rest => do
    match ← key? rest with
    | ((path, key), ']' :: ']' :: rest) => return (.arrayHeader path key, rest)
    | _ => none
  | '[' :: rest => do
    match ← key? rest with
    | ((path, key), ']' :: rest) => return (.header path key, rest)
    | _ => none
  | c :: rest =>
    if c = '#' ∨ (newline? (c :: rest)).isSome then some (.blank, c :: rest)
    else do
      match ← key? (c :: rest) with
      | ((path, key), '=' :: rest) =>
        let (v, rest) ← value? (skipWhite rest)
        return (.assignment path key v, rest)
      | _ => none

/-- Reads lines up to the end. -/
def linesFrom? : (fuel : Nat) → List Char → Option (List Line)
  | 0, _ => none
  | fuel + 1, cs =>
    match skipWhite cs with
    | [] => some []
    | cs => do
      let (line, rest) ← lineBody? cs
      let rest ← lineEnd? rest
      return line :: (← linesFrom? fuel rest)

/-- The lines of a text.  A byte order mark at its start does not count. -/
def textLines? (text : String) : Option (List Line) :=
  let cs := match text.toList with
    | '\ufeff' :: rest => rest
    | cs => cs
  linesFrom? (cs.length + 1) cs

/-- A document read in part. -/
structure Reading where
  entries : Entries
  /-- The path of the table that the next lines belong to. -/
  current : List String

namespace Reading

/-- Opens a table by its header. -/
def openTable? (key : String) (es : Entries) : Option Entries :=
  match es.lookup key with
  | none => some (es ++ [(key, .table .header [])])
  | some (.table .implied sub) => some (es.set key (.table .header sub))
  | some _ => none

/-- Adds a table to an array by its header. -/
def openArrayTable? (key : String) (es : Entries) : Option Entries :=
  match es.lookup key with
  | none => some (es ++ [(key, .tables [] [])])
  | some (.tables before last) => some (es.set key (.tables (before ++ [last]) []))
  | some _ => none

/-- Takes in a line. -/
def add? (r : Reading) : Line → Option Reading
  | .blank => some r
  | .header path key => do
    let entries ← Entries.modifyAt false (fun _ es => openTable? key es) path .header r.entries
    return { entries, current := path ++ [key] }
  | .arrayHeader path key => do
    let entries ← Entries.modifyAt false (fun _ es => openArrayTable? key es) path .header r.entries
    return { entries, current := path ++ [key] }
  | .assignment path key v => do
    let entries ← Entries.modifyAt false (fun origin es => es.insert? origin path key v) r.current
      .header r.entries
    return { r with entries }

end Reading

/-- The table that a text describes. -/
def document? (text : String) : Option Entries := do
  let lines ← textLines? text
  let r ← lines.foldlM Reading.add? { entries := [], current := [] }
  return r.entries

end Sharding.Toml
