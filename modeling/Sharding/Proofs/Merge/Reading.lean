import Mathlib.Data.List.Forall2
import Sharding.Merge.Stream

/-!
# Reading rows

`Source.Delivers rows s` says that the source `s` is free of errors and has the rows `rows` left.

`Stream.Delivers closer s w rows` says that the stream `s` delivers the rows `rows` and then is at
its end.  Reading is a function, so there is one such list only.
-/

namespace Sharding

variable {W : Type} {closer : Closer W}

/-! ## Sources -/

/-- The reads of a source deliver some rows and no error. -/
structure Source.Delivers (rows : List Row) (s : Source) : Prop where
  unbroken : s.broken = none
  reads : s.reads = rows.map .ok

namespace Source

variable {s : Source} {row : Row} {rows : List Row}

theorem delivers_ofRows (columns : List String) (rows : List Row) :
    Delivers rows (ofRows columns rows) :=
  ⟨rfl, rfl⟩

theorem Delivers.read_nil (h : Delivers [] s) : s.read = (.ok none, s) := by
  rw [Source.read, h.unbroken, h.reads]
  rfl

theorem Delivers.read_cons (h : Delivers (row :: rows) s) :
    ∃ s', s.read = (.ok (some row), s') ∧ Delivers rows s' := by
  refine ⟨{ s with reads := rows.map .ok }, ?_, h.unbroken, rfl⟩
  rw [Source.read, h.unbroken, h.reads]
  rfl

theorem Delivers.outcomes (h : Delivers rows s) : s.outcomes = rows.map .ok := by
  rw [Source.outcomes, h.unbroken, h.reads]

end Source

/-! ## Streams -/

/-- What reading a stream to its end delivers. -/
inductive Stream.Delivers (closer : Closer W) : Stream → W → List Row → Prop where
  | finish {s s' w w'} : s.next closer w = (.ok none, s', w') → Delivers closer s w []
  | row {s s' w w' row rows} : s.next closer w = (.ok (some row), s', w') →
      Delivers closer s' w' rows → Delivers closer s w (row :: rows)

namespace Stream

variable {s : Stream} {w : W} {rows rows' : List Row}

/-- A stream delivers one list of rows. -/
theorem Delivers.unique (h : Delivers closer s w rows) (h' : Delivers closer s w rows') :
    rows = rows' := by
  induction h generalizing rows' with
  | finish hnext =>
    cases h' with
    | finish _ => rfl
    | row hnext' _ => simp [hnext] at hnext'
  | row hnext _ ih =>
    cases h' with
    | finish hnext' => simp [hnext] at hnext'
    | row hnext' hrest =>
      rw [hnext] at hnext'
      cases hnext'
      rw [ih hrest]

/-- What a stream delivers depends on its reads alone. -/
theorem Delivers.of_next_eq {s' : Stream} {w' : W} (h : Delivers closer s' w' rows)
    (hnext : s.next closer w = s'.next closer w') : Delivers closer s w rows := by
  cases h with
  | finish h => exact .finish (hnext.trans h)
  | row h hrest => exact .row (hnext.trans h) hrest

/-- A single source is read as it is. -/
theorem delivers_single {source : Source} (h : source.Delivers rows) (w : W) :
    Delivers closer (.single source) w rows := by
  induction rows generalizing source with
  | nil => exact .finish (by rw [Stream.next, h.read_nil])
  | cons row rows ih =>
    obtain ⟨source', hread, h'⟩ := h.read_cons
    exact .row (by rw [Stream.next, hread]) (ih h')

/-- Sources that are read one after the other deliver the rows of all of them, in unit order, if
closing does not fail. -/
theorem delivers_concat (hcloser : ∀ handle w, (closer handle w).1 = .ok ())
    {lists : List (List Row)} {pending : List Source}
    (h : List.Forall₂ Source.Delivers lists pending) (columns : List String)
    (finished : List Source) (w : W) :
    Delivers closer (.concat ⟨columns, finished, pending⟩) w lists.flatten := by
  induction h generalizing finished w with
  | nil => exact .finish rfl
  | @cons rows s lists pending hs _ ih =>
    rw [List.flatten_cons]
    induction rows generalizing s with
    | nil =>
      obtain ⟨t, w', hclose⟩ : ∃ t w', s.close closer w = (.ok (), t, w') := by
        unfold Source.close
        cases s.handle with
        | none => exact ⟨_, _, rfl⟩
        | some handle => exact ⟨_, _, Prod.ext (hcloser handle w) rfl⟩
      refine (ih (finished ++ [t]) w').of_next_eq ?_
      simp only [Stream.next, Concat.next, Concat.nextFrom, hs.read_nil, hclose]
    | cons row rows ihrows =>
      obtain ⟨s', hread, hs'⟩ := hs.read_cons
      refine .row ?_ (ihrows hs')
      simp only [Stream.next, Concat.next, Concat.nextFrom, hread]

end Stream

end Sharding
