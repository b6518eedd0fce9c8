import Sharding.Datum.Basic
import Sharding.Error

/-!
# Sources of rows

A `Source` is the cursor over the result of one physical query, seen from the reading side: its
columns, and what its next reads will deliver.  A read delivers a row or fails, and a read that
fails is used up like any other.  After the reads listed the source is at its end.

Closing is an effect on the world that the source lives in.  A source without a handle lives in
memory only.  A source whose cursor was closed has no rows left, unless it retains them.
-/

namespace Sharding

/-- The cursor over the result of one physical query. -/
structure Source where
  columns : List String
  /-- What the next reads deliver. -/
  reads : List (Except Error Row)
  /-- A source that is broken fails every read. -/
  broken : Option Error := none
  /-- The number under which the world knows the cursor. -/
  handle : Option Nat := none
  /-- Whether rows can still be read after the cursor was closed. -/
  retains : Bool := false

/-- How the world closes a cursor.  The effect takes place also when an error is answered. -/
abbrev Closer (W : Type) := Nat → W → Except Error Unit × W

namespace Source

/-- A source of rows in memory. -/
def ofRows (columns : List String) (rows : List Row) : Source :=
  { columns, reads := rows.map .ok }

/-- Reads a row; there is none at the end. -/
def read (s : Source) : Except Error (Option Row) × Source :=
  match s.broken with
  | some e => (.error e, s)
  | none =>
    match s.reads with
    | [] => (.ok none, s)
    | .ok row :: rest => (.ok (some row), { s with reads := rest })
    | .error e :: rest => (.error e, { s with reads := rest })

/-- What reading the source to its end delivers. -/
def outcomes (s : Source) : List (Except Error Row) :=
  match s.broken with
  | some e => [.error e]
  | none => s.reads

/-- The rows up to the first read that fails, and the source behind them. -/
def readAllFrom (s : Source) : List (Except Error Row) → Except Error (List Row) × Source
  | [] => (.ok [], { s with reads := [] })
  | .error e :: rest => (.error e, { s with reads := rest })
  | .ok row :: rest =>
    let (rows, s) := readAllFrom s rest
    (rows.map (row :: ·), s)

/-- All rows that are left.  A read that fails loses the rows read before it. -/
def readAll (s : Source) : Except Error (List Row) × Source :=
  match s.broken with
  | some e => (.error e, s)
  | none => s.readAllFrom s.reads

/-- Closes a source. -/
def close {W : Type} (closer : Closer W) (s : Source) (w : W) :
    Except Error Unit × Source × W :=
  let closed := if s.retains then s else { s with reads := [] }
  match s.handle with
  | none => (.ok (), closed, w)
  | some n =>
    let (r, w) := closer n w
    (r, closed, w)

/-- Closes every source, in the order of the list.  The error is that of the first source that
could not be closed. -/
def closeAll {W : Type} (closer : Closer W) : List Source → W →
    Except Error Unit × List Source × W
  | [], w => (.ok (), [], w)
  | s :: rest, w =>
    let (first, s, w) := s.close closer w
    let (others, rest, w) := closeAll closer rest w
    (first.bind fun _ => others, s :: rest, w)

/-- Reads a source to its end and closes it.  The error of a read comes before that of the
close. -/
def drain {W : Type} (closer : Closer W) (s : Source) (w : W) : Except Error Source × W :=
  let (rows, s) := s.readAll
  let (closed, s, w) := s.close closer w
  (rows.bind fun rows => closed.map fun _ => ofRows s.columns rows, w)

end Source

end Sharding
