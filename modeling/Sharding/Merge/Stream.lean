import Sharding.Cursor.Source
import Sharding.Merge.Heap
import Sharding.Merge.Order

/-!
# Streams over several sources

A `Stream` reads the rows of several sources as one.

* `single` is one source, read as it is.
* `concat` reads each source to its end before the next, in unit order, and closes it there.
* `ordered` merges sources that are sorted alike.  It holds the next row of every source that is
  not at its end in a heap, and delivers the first of them; rows with equal keys come in unit
  order.  A read that fails behind a row takes that row with it.

A `Reader` is a stream with a page: it skips the rows before the page and ends behind it.  A read
that fails counts against the page like one that delivers a row.
-/

namespace Sharding

/-! ## Sources one after the other -/

/-- Sources that are read one after the other. -/
structure Concat where
  columns : List String
  /-- The sources that are at their end and closed, in unit order. -/
  finished : List Source
  /-- The other sources; the first of them is being read. -/
  pending : List Source

namespace Concat

/-- Reads on in `pending`, with the sources of `finished` behind. -/
def nextFrom {W : Type} (closer : Closer W) (columns : List String) (finished : List Source) :
    List Source → W → Except Error (Option Row) × Concat × W
  | [], w => (.ok none, ⟨columns, finished, []⟩, w)
  | s :: rest, w =>
    match s.read with
    | (.error e, s) => (.error e, ⟨columns, finished, s :: rest⟩, w)
    | (.ok (some row), s) => (.ok (some row), ⟨columns, finished, s :: rest⟩, w)
    | (.ok none, s) =>
      match s.close closer w with
      | (.error e, s, w) => (.error e, ⟨columns, finished, s :: rest⟩, w)
      | (.ok (), s, w) => nextFrom closer columns (finished ++ [s]) rest w

/-- Reads the next row. -/
def next {W : Type} (closer : Closer W) (c : Concat) (w : W) :
    Except Error (Option Row) × Concat × W :=
  nextFrom closer c.columns c.finished c.pending w

/-- Closes all sources, those at their end as well. -/
def close {W : Type} (closer : Closer W) (c : Concat) (w : W) :
    Except Error Unit × Concat × W :=
  let (r, sources, w) := Source.closeAll closer (c.finished ++ c.pending) w
  (r, { c with finished := sources.take c.finished.length
               pending := sources.drop c.finished.length }, w)

end Concat

/-! ## Sources merged by their keys -/

/-- The next row of a source. -/
structure Entry where
  row : Row
  source : Nat
deriving DecidableEq

/-- Entries are in the order of their rows, and those with equal keys in unit order. -/
def Entry.compare (keys : List SortKey) (a b : Entry) : Ordering :=
  (compareRows keys a.row b.row).then (Ord.compare a.source b.source)

/-- Sources that are merged by their keys. -/
structure Ordered where
  columns : List String
  keys : List SortKey
  sources : List Source
  heap : Heap Entry

namespace Ordered

/-- Reads the first row of every source, the first of which has the number `index`. -/
def primeFrom (keys : List SortKey) (index : Nat) (heap : Heap Entry) :
    List Source → Except Error (Heap Entry) × List Source
  | [] => (.ok heap, [])
  | s :: rest =>
    match s.read with
    | (.error e, s) => (.error e, s :: rest)
    | (.ok first, s) =>
      let heap := match first with
        | some row => heap.push (Entry.compare keys) ⟨row, index⟩
        | none => heap
      let (r, rest) := primeFrom keys (index + 1) heap rest
      (r, s :: rest)

/-- A merge of sources; all of them are closed when the first row of one cannot be read. -/
def create {W : Type} (closer : Closer W) (columns : List String) (keys : List SortKey)
    (sources : List Source) (w : W) : Except Error Ordered × W :=
  match primeFrom keys 0 Heap.empty sources with
  | (.ok heap, sources) => (.ok { columns, keys, sources, heap }, w)
  | (.error e, sources) =>
    let (_, _, w) := Source.closeAll closer sources w
    (.error e, w)

/-- Takes the first row and reads on in its source. -/
def next (o : Ordered) : Except Error (Option Row) × Ordered :=
  match o.heap.pop (Entry.compare o.keys) with
  | none => (.ok none, o)
  | some (first, heap) =>
    match o.sources[first.source]? with
    | none => (.ok (some first.row), { o with heap })
    | some s =>
      let (r, s) := s.read
      let o := { o with heap, sources := o.sources.set first.source s }
      match r with
      | .error e => (.error e, o)
      | .ok none => (.ok (some first.row), o)
      | .ok (some row) =>
        (.ok (some first.row),
          { o with heap := o.heap.push (Entry.compare o.keys) ⟨row, first.source⟩ })

/-- Forgets the rows in the heap and closes all sources. -/
def close {W : Type} (closer : Closer W) (o : Ordered) (w : W) :
    Except Error Unit × Ordered × W :=
  let (r, sources, w) := Source.closeAll closer o.sources w
  (r, { o with heap := Heap.empty, sources }, w)

end Ordered

/-! ## Streams -/

/-- The rows of several sources as one. -/
inductive Stream where
  | single (s : Source)
  | concat (c : Concat)
  | ordered (o : Ordered)

namespace Stream

/-- The columns of a stream. -/
def columns : Stream → List String
  | single s => s.columns
  | concat c => c.columns
  | ordered o => o.columns

/-- The sources of a stream, in unit order. -/
def sources : Stream → List Source
  | single s => [s]
  | concat c => c.finished ++ c.pending
  | ordered o => o.sources

/-- Reads the next row. -/
def next {W : Type} (closer : Closer W) (w : W) : Stream → Except Error (Option Row) × Stream × W
  | single s =>
    let (r, s) := s.read
    (r, single s, w)
  | concat c =>
    let (r, c, w) := c.next closer w
    (r, concat c, w)
  | ordered o =>
    let (r, o) := o.next
    (r, ordered o, w)

/-- Closes all sources. -/
def close {W : Type} (closer : Closer W) (w : W) : Stream → Except Error Unit × Stream × W
  | single s =>
    let (r, s, w) := s.close closer w
    (r, single s, w)
  | concat c =>
    let (r, c, w) := c.close closer w
    (r, concat c, w)
  | ordered o =>
    let (r, o, w) := o.close closer w
    (r, ordered o, w)

/-- The number of reads that some sources have left. -/
def readsLeft (sources : List Source) : Nat :=
  (sources.flatMap (·.reads)).length

/-- No stream delivers more rows than this. -/
def bound : Stream → Nat
  | single s => s.reads.length
  | concat c => readsLeft c.pending
  | ordered o => o.heap.size + readsLeft o.sources

end Stream

/-! ## Pages -/

/-- What is left of a page: the rows still to be skipped, and those still to be delivered. -/
structure Window where
  skip : Nat
  take : Nat
deriving DecidableEq

/-- The whole of a page. -/
def Window.ofPage (p : Sql.Pagination) : Window :=
  ⟨p.offset.toNat, p.rowCount.toNat⟩

/-- A stream, and the page of it that is read. -/
structure Reader where
  stream : Stream
  window : Option Window := none

namespace Reader

/-- Reads a single source. -/
def ofSource (s : Source) : Reader :=
  ⟨.single s, none⟩

/-- Skips rows before the page and reads the first row of it. -/
def nextIn {W : Type} (closer : Closer W) (take : Nat) :
    (skip : Nat) → Stream → W → Except Error (Option Row) × Reader × W
  | 0, stream, w =>
    match take with
    | 0 => (.ok none, ⟨stream, some ⟨0, 0⟩⟩, w)
    | take + 1 =>
      let (r, stream, w) := stream.next closer w
      (r, ⟨stream, some ⟨0, take⟩⟩, w)
  | skip + 1, stream, w =>
    match stream.next closer w with
    | (.error e, stream, w) => (.error e, ⟨stream, some ⟨skip, take⟩⟩, w)
    | (.ok none, stream, w) => (.ok none, ⟨stream, some ⟨0, 0⟩⟩, w)
    | (.ok (some _), stream, w) => nextIn closer take skip stream w

/-- Reads the next row. -/
def next {W : Type} (closer : Closer W) (r : Reader) (w : W) :
    Except Error (Option Row) × Reader × W :=
  match r.window with
  | none =>
    let (row, stream, w) := r.stream.next closer w
    (row, { r with stream }, w)
  | some window => nextIn closer window.take window.skip r.stream w

/-- Closes all sources. -/
def close {W : Type} (closer : Closer W) (r : Reader) (w : W) : Except Error Unit × Reader × W :=
  let (result, stream, w) := r.stream.close closer w
  (result, { r with stream }, w)

/-- The columns of a reader. -/
def columns (r : Reader) : List String :=
  r.stream.columns

end Reader

end Sharding
