import Sharding.Sql.Token
import Sharding.Text.Name

/-!
# Statement templates

A `Template` is the text of a statement with the tokens that mark what changes from one physical
statement to the next.  `Template.scan` finds the tokens in a text:

* every place where a table's name stands as a whole word, in any case of ASCII letters;
* the end of the select list, before the first ` from ` of a text that starts with `select`;
* the pagination clause, from the last ` limit ` to the end of the text.

Positions count bytes of UTF-8.  Lowering ASCII letters keeps the length of every character, so
positions found in the lowered text hold in the text itself.
-/

namespace Sharding.Sql

/-- The text of a statement and its tokens. -/
structure Template where
  text : String
  tokens : List Token
deriving DecidableEq

/-- The number of bytes of a list of characters. -/
def byteLength (cs : List Char) : Nat :=
  cs.foldr (fun c n => c.utf8Size + n) 0

/-- Cuts a text after `n` bytes; there is no cut inside of a character or past the end. -/
def splitAtByte (n : Nat) (cs : List Char) : Option (List Char × List Char) :=
  match cs with
  | [] => if n = 0 then some ([], []) else none
  | c :: rest =>
    if n = 0 then some ([], c :: rest)
    else if c.utf8Size ≤ n then
      (splitAtByte (n - c.utf8Size) rest).map fun (front, back) => (c :: front, back)
    else none

/-- The positions at which `needle` stands in a text that itself starts at `offset`. -/
def positionsFrom (needle : List Char) (offset : Nat) : List Char → List Nat
  | [] => []
  | c :: rest =>
    let later := positionsFrom needle (offset + c.utf8Size) rest
    if needle.isPrefixOf (c :: rest) then offset :: later else later

/-- The positions at which `needle` stands in a text. -/
def positions (needle cs : List Char) : List Nat :=
  positionsFrom needle 0 cs

/-- Whether a neighbouring character, if there is one, ends a word. -/
def endsWord (neighbour : Option Char) : Bool :=
  match neighbour with
  | none => true
  | some c => !isWordChar c

/-- The positions at which `needle` stands as a whole word, when the text is searched from left to
right and every match is skipped as a whole.  `skip` counts the characters of a match that are
still to be skipped, and `before` is the character in front. -/
def wordPositionsFrom (needle : List Char) (skip offset : Nat) (before : Option Char) :
    List Char → List Nat
  | [] => []
  | c :: rest =>
    let next := offset + c.utf8Size
    match skip with
    | skip + 1 => wordPositionsFrom needle skip next (some c) rest
    | 0 =>
      if needle.isPrefixOf (c :: rest) then
        let later := wordPositionsFrom needle (needle.length - 1) next (some c) rest
        if endsWord before && endsWord ((c :: rest).drop needle.length).head? then offset :: later
        else later
      else wordPositionsFrom needle 0 next (some c) rest

/-- The positions at which `needle` stands as a whole word. -/
def wordPositions (needle cs : List Char) : List Nat :=
  wordPositionsFrom needle 0 0 none cs

namespace Template

/-- The tokens of one table's name in a lowered text. -/
def tableTokens (lowered : List Char) (table : String) : List Token :=
  let needle := foldCase table
  (wordPositions needle lowered).map fun start => .table start (byteLength needle) table

/-- The token of the select list's end in a lowered text. -/
def derivedTokens (lowered : List Char) : List Token :=
  if "select".toList.isPrefixOf (trimStart lowered) then
    ((positions " from ".toList lowered).head?.map Token.derived).toList
  else []

/-- The token of the pagination clause in a lowered text. -/
def paginationTokens (lowered : List Char) : List Token :=
  ((positions " limit ".toList lowered).getLast?.map fun start =>
    Token.pagination (start + 1) (byteLength lowered - start - 1)).toList

/-- The template of a text whose logical tables are known: tokens in the order of their
positions, those at one position with tables first, in the order given. -/
def scan (text : String) (tables : List String) : Template :=
  let lowered := foldCase text
  let tokens := tables.flatMap (tableTokens lowered) ++ derivedTokens lowered ++
    paginationTokens lowered
  { text, tokens := tokens.mergeSort fun a b => a.offset ≤ b.offset }

/-- The text that a token covers, unless the token is no valid stretch of the text. -/
def piece? (t : Template) (token : Token) : Option String := do
  let (_, rest) ← splitAtByte token.offset t.text.toList
  let (piece, _) ← splitAtByte token.length rest
  return String.ofList piece

end Template

end Sharding.Sql
