import Sharding.Number.Power

/-!
# Lexemes of TOML

Readers for the parts of a TOML document that have no parts of their own: blanks and comments,
strings, numbers, and dates and times.  A reader takes the characters ahead.  It fails, or answers
with what it read and the characters behind it.

A lexeme is read as far as it goes.  What may follow it is for the caller to say.

The readers of TOML stand for a library that is not part of what is modelled, and follow version 1.0
of the format.
-/

namespace Sharding.Toml

/-- Reads something from the characters ahead. -/
abbrev Read (α : Type) := List Char → Option (α × List Char)

/-! ## Blanks and lines -/

/-- A blank within a line. -/
def isWhite (c : Char) : Bool :=
  c == ' ' || c == '\t'

/-- A character that may stand in comments and strings; line ends and other controls may not. -/
def isPrintable (c : Char) : Bool :=
  c == '\t' || (' ' ≤ c && c != '\x7f')

/-- The characters behind the blanks of a line. -/
def skipWhite (cs : List Char) : List Char :=
  cs.dropWhile isWhite

/-- The characters behind a line end. -/
def newline? : List Char → Option (List Char)
  | '\n' :: rest => some rest
  | '\r' :: '\n' :: rest => some rest
  | _ => none

/-- The characters behind a comment, if there is one. -/
def skipComment : List Char → List Char
  | '#' :: rest => rest.dropWhile isPrintable
  | cs => cs

/-- The characters behind the end of a line that has nothing more than a comment.  The document may
end there instead. -/
def lineEnd? (cs : List Char) : Option (List Char) :=
  match skipComment (skipWhite cs) with
  | [] => some []
  | cs => newline? cs

/-- The characters behind any blanks, comments and line ends.  A line end belongs to the comment
before it; the recursion ends because every round takes at least one character. -/
def skipLines : (fuel : Nat) → List Char → Option (List Char)
  | 0, _ => none
  | fuel + 1, cs =>
    match skipWhite cs with
    | '#' :: rest => newline? (rest.dropWhile isPrintable) >>= skipLines fuel
    | '\n' :: rest => skipLines fuel rest
    | '\r' :: rest => newline? ('\r' :: rest) >>= skipLines fuel
    | cs => some cs

/-! ## Strings -/

/-- The value of a digit in a base up to sixteen. -/
def digit? (base : Nat) (c : Char) : Option Nat :=
  let n :=
    if '0' ≤ c ∧ c ≤ '9' then c.toNat - 48
    else if 'a' ≤ c ∧ c ≤ 'f' then c.toNat - 87
    else if 'A' ≤ c ∧ c ≤ 'F' then c.toNat - 55
    else base
  if n < base then some n else none

/-- The number that some digits stand for. -/
def digitsValue? (base : Nat) (cs : List Char) : Option Nat :=
  cs.foldlM (fun n c => (digit? base c).map (n * base + ·)) 0

/-- The character with a number; surrogates are none. -/
def scalar? (n : Nat) : Option Char :=
  if n.isValidChar then some (Char.ofNat n) else none

/-- The character that an escape of one letter stands for. -/
def simpleEscape? : Char → Option Char
  | 'b' => some '\x08'
  | 't' => some '\t'
  | 'n' => some '\n'
  | 'f' => some '\x0c'
  | 'r' => some '\r'
  | '"' => some '"'
  | '\\' => some '\\'
  | _ => none

/-- Reads the rest of an escape, behind the backslash. -/
def escape? : Read Char
  | [] => none
  | c :: rest =>
    let width := if c = 'u' then 4 else if c = 'U' then 8 else 0
    if width = 0 then (simpleEscape? c).map (·, rest)
    else if rest.length < width then none
    else do
      let n ← digitsValue? 16 (rest.take width)
      return (← scalar? n, rest.drop width)

/-- Reads the rest of a string between quotes, on one line. -/
def quoted? : (fuel : Nat) → Read (List Char)
  | 0, _ => none
  | _ + 1, [] => none
  | _ + 1, '"' :: rest => some ([], rest)
  | fuel + 1, '\\' :: rest => do
    let (c, rest) ← escape? rest
    let (cs, rest) ← quoted? fuel rest
    return (c :: cs, rest)
  | fuel + 1, c :: rest =>
    if isPrintable c then (quoted? fuel rest).map fun (cs, rest) => (c :: cs, rest) else none

/-- Reads the rest of a string between apostrophes, on one line; nothing is escaped in it. -/
def verbatim? : Read (List Char)
  | [] => none
  | '\'' :: rest => some ([], rest)
  | c :: rest =>
    if isPrintable c then (verbatim? rest).map fun (cs, rest) => (c :: cs, rest) else none

/-- The number of delimiters at the front. -/
def delimiters (d : Char) (cs : List Char) : Nat :=
  (cs.takeWhile (· == d)).length

/-- Whether only blanks stand before the end of the line. -/
def endsLine (cs : List Char) : Bool :=
  (newline? (skipWhite cs)).isSome

/-- The characters behind any blanks and line ends. -/
def skipBlank : (fuel : Nat) → List Char → List Char
  | 0, cs => cs
  | fuel + 1, cs =>
    match newline? (skipWhite cs) with
    | some rest => skipBlank fuel rest
    | none => skipWhite cs

/-- Reads the rest of a string of several lines, which ends with three delimiters; up to two more
before them belong to the string.  Between quotes there are escapes, and a backslash at the end of a
line takes away the blanks up to the next text. -/
def lines? (d : Char) (escapes : Bool) : (fuel : Nat) → Read (List Char)
  | 0, _ => none
  | _ + 1, [] => none
  | fuel + 1, c :: rest =>
    if c = d then
      let n := delimiters d (c :: rest)
      if n < 3 then (lines? d escapes fuel rest).map fun (cs, rest) => (c :: cs, rest)
      else
        let inside := min n 5 - 3
        some (List.replicate inside d, (c :: rest).drop (inside + 3))
    else if c = '\\' && escapes then
      if endsLine rest then lines? d escapes fuel (skipBlank rest.length rest)
      else do
        let (c, rest) ← escape? rest
        let (cs, rest) ← lines? d escapes fuel rest
        return (c :: cs, rest)
    else
      match newline? (c :: rest) with
      | some rest => (lines? d escapes fuel rest).map fun (cs, rest) => ('\n' :: cs, rest)
      | none =>
        if isPrintable c then
          (lines? d escapes fuel rest).map fun (cs, rest) => (c :: cs, rest)
        else none

/-- The characters behind a line end at the front, if there is one. -/
def skipNewline (cs : List Char) : List Char :=
  (newline? cs).getD cs

/-- Reads a string on one line. -/
def string? : Read String
  | '"' :: rest => (quoted? (rest.length + 1) rest).map fun (cs, rest) => (String.ofList cs, rest)
  | '\'' :: rest => (verbatim? rest).map fun (cs, rest) => (String.ofList cs, rest)
  | _ => none

/-- Reads a string of any form. -/
def text? : Read String
  | '"' :: '"' :: '"' :: rest => body '"' true (skipNewline rest)
  | '\'' :: '\'' :: '\'' :: rest => body '\'' false (skipNewline rest)
  | cs => string? cs
where
  body (d : Char) (escapes : Bool) (cs : List Char) : Option (String × List Char) :=
    (lines? d escapes (cs.length + 1) cs).map fun (cs, rest) => (String.ofList cs, rest)

/-! ## Numbers -/

/-- Reads the rest of some digits, behind the first one.  An underscore stands between digits. -/
def moreDigits? (base : Nat) : Read (List Char)
  | '_' :: c :: rest =>
    if (digit? base c).isSome then
      (moreDigits? base rest).map fun (cs, rest) => (c :: cs, rest)
    else none
  | ['_'] => none
  | c :: rest =>
    if (digit? base c).isSome then
      (moreDigits? base rest).map fun (cs, rest) => (c :: cs, rest)
    else some ([], c :: rest)
  | [] => some ([], [])

/-- Reads digits, at least one. -/
def digits? (base : Nat) : Read (List Char)
  | [] => none
  | c :: rest =>
    if (digit? base c).isSome then
      (moreDigits? base rest).map fun (cs, rest) => (c :: cs, rest)
    else none

/-- Reads a sign, if there is one; the answer is whether it is a minus. -/
def sign : List Char → Bool × List Char
  | '-' :: rest => (true, rest)
  | '+' :: rest => (false, rest)
  | cs => (false, cs)

/-- Reads a decimal number without a point: whether it is negative, and its digits.  No zero stands
before other digits. -/
def decimal? (cs : List Char) : Option ((Bool × List Char) × List Char) := do
  let (negative, rest) := sign cs
  match rest with
  | '0' :: rest => return ((negative, ['0']), rest)
  | rest =>
    let (digits, rest) ← digits? 10 rest
    return ((negative, digits), rest)

/-- An integer that fits 64 bits. -/
def fits? (n : Int) : Option Int :=
  if -9223372036854775808 ≤ n ∧ n < 9223372036854775808 then some n else none

/-- Reads an integer.  Hexadecimal, octal and binary numbers have no sign. -/
def integer? (cs : List Char) : Option (Int × List Char) :=
  match cs with
  | '0' :: 'x' :: rest => inBase 16 rest
  | '0' :: 'o' :: rest => inBase 8 rest
  | '0' :: 'b' :: rest => inBase 2 rest
  | cs => do
    let ((negative, digits), rest) ← decimal? cs
    let n ← digitsValue? 10 digits
    return (← fits? (if negative then -(n : Int) else n), rest)
where
  inBase (base : Nat) (cs : List Char) : Option (Int × List Char) := do
    let (digits, rest) ← digits? base cs
    return (← fits? (← digitsValue? base digits), rest)

/-- Reads an exponent. -/
def exponent? : Read Int
  | [] => none
  | c :: rest =>
    if c = 'e' ∨ c = 'E' then do
      let (negative, rest) := sign rest
      let (digits, rest) ← digits? 10 rest
      let n ← digitsValue? 10 digits
      return (if negative then -(n : Int) else n, rest)
    else none

/-- Whether `n` times the power of ten with the given exponent is beyond the largest float, so that
the nearest float is infinite. -/
def isBeyondFloats (n : Nat) (exponent : Int) : Bool :=
  let limit := twoTo 1024 - twoTo 970
  if n = 0 ∨ exponent < -(intDigits n) then false
  else if 400 < exponent then true
  else if 0 ≤ exponent then limit ≤ n * tenTo exponent.toNat
  else limit * tenTo (-exponent).toNat ≤ n
where
  /-- A bound on the number of decimal digits. -/
  intDigits (n : Nat) : Int := n.log2 + 1

/-- Reads the rest of a number with a point or an exponent, behind its whole part.  A positive
number has to be within the range of the floats. -/
def fraction? (negative : Bool) (whole : List Char) (cs : List Char) :
    Option (Unit × List Char) := do
  let (places, rest) ← match cs with
    | '.' :: rest => digits? 10 rest
    | cs => some ([], cs)
  let (exponent, rest) ← match rest with
    | c :: _ =>
      if c = 'e' ∨ c = 'E' then exponent? rest
      else if places.isEmpty then none else some (0, rest)
    | [] => if places.isEmpty then none else some (0, [])
  let n ← digitsValue? 10 (whole ++ places)
  if !negative && isBeyondFloats n (exponent - places.length) then none else some ((), rest)

/-- Reads an infinity or no number, without a sign. -/
def special? : Read Unit
  | 'i' :: 'n' :: 'f' :: rest => some ((), rest)
  | 'n' :: 'a' :: 'n' :: rest => some ((), rest)
  | _ => none

/-- Reads a float.  Its value is not kept. -/
def float? (cs : List Char) : Option (Unit × List Char) :=
  match decimal? cs with
  | some ((negative, whole), rest) => fraction? negative whole rest
  | none => special? (sign cs).2

/-! ## Dates and times -/

/-- Reads a number of exactly two digits between two bounds. -/
def twoDigits? (low high : Nat) : Read Nat
  | a :: b :: rest => do
    let n := (← digit? 10 a) * 10 + (← digit? 10 b)
    if low ≤ n ∧ n ≤ high then some (n, rest) else none
  | _ => none

/-- The number of days of a month. -/
def daysIn (year month : Nat) : Nat :=
  if month = 2 then
    if year % 4 = 0 ∧ (year % 100 ≠ 0 ∨ year % 400 = 0) then 29 else 28
  else if month = 4 ∨ month = 6 ∨ month = 9 ∨ month = 11 then 30
  else 31

/-- Reads a date. -/
def date? : Read Unit
  | a :: b :: c :: d :: '-' :: rest => do
    let year ← digitsValue? 10 [a, b, c, d]
    let (month, rest) ← twoDigits? 1 12 rest
    match rest with
    | '-' :: rest =>
      let (_, rest) ← twoDigits? 1 (daysIn year month) rest
      return ((), rest)
    | _ => none
  | _ => none

/-- Reads digits behind a point, if there is a point. -/
def secondFraction? : Read Unit
  | '.' :: rest =>
    match rest.span Char.isDigit with
    | ([], _) => none
    | (_, rest) => some ((), rest)
  | cs => some ((), cs)

/-- Reads a time of day; there are leap seconds. -/
def time? (cs : List Char) : Option (Unit × List Char) := do
  match ← twoDigits? 0 23 cs with
  | (_, ':' :: rest) =>
    match ← twoDigits? 0 59 rest with
    | (_, ':' :: rest) =>
      let (_, rest) ← twoDigits? 0 60 rest
      secondFraction? rest
    | _ => none
  | _ => none

/-- Reads the offset of a time from the universal one, if there is an offset. -/
def offset? (cs : List Char) : Option (Unit × List Char) :=
  match cs with
  | 'Z' :: rest | 'z' :: rest => some ((), rest)
  | '+' :: rest | '-' :: rest => do
    match ← twoDigits? 0 23 rest with
    | (_, ':' :: rest) =>
      let (_, rest) ← twoDigits? 0 59 rest
      return ((), rest)
    | _ => none
  | cs => some ((), cs)

/-- Reads a date, a time or both.  A single blank may stand between them. -/
def dateTime? (cs : List Char) : Option (Unit × List Char) :=
  match date? cs with
  | none => time? cs
  | some (_, rest) =>
    match rest with
    | [] => some ((), [])
    | c :: more =>
      if c = 'T' ∨ c = 't' ∨ c = ' ' then
        match time? more with
        | some (_, rest) => offset? rest
        | none => some ((), c :: more)
      else some ((), c :: more)

end Sharding.Toml
