import Sharding.Merge.Result
import Sharding.Proofs.Merge.Heap
import Sharding.Proofs.Merge.Reading

/-!
# Reading the page of a stream

Reading a result set takes as many reads as its stream has rows, and `Stream.bound` is enough for
them (`Stream.bound_lt`).  What comes out is the page of what the stream delivers
(`readAllFrom_page`).

A page needs a number of reads only: the rows that are skipped and those that are kept.  Two streams
that answer alike for so many reads (`Stream.Alike`) give one page (`Stream.Alike.readAll`).
-/

namespace Sharding

variable {W : Type} {closer : Closer W}

/-! ## Bounds -/

/-- A read that delivers a row uses it up, and no read adds rows. -/
theorem Source.length_reads_read (s : Source) :
    s.read.2.reads.length ≤ s.reads.length ∧
      ∀ row, s.read.1 = .ok (some row) → s.read.2.reads.length < s.reads.length := by
  unfold Source.read
  split
  · exact ⟨Nat.le_refl _, fun _ h => by cases h⟩
  · split
    · exact ⟨Nat.le_refl _, fun _ h => by cases h⟩
    · rename_i hreads
      simp [hreads]
    · rename_i hreads
      simp [hreads]

theorem readsLeft_cons (s : Source) (sources : List Source) :
    Stream.readsLeft (s :: sources) = s.reads.length + Stream.readsLeft sources := by
  rw [Stream.readsLeft, List.flatMap_cons, List.length_append, Stream.readsLeft]

theorem readsLeft_append (as bs : List Source) :
    Stream.readsLeft (as ++ bs) = Stream.readsLeft as + Stream.readsLeft bs := by
  rw [Stream.readsLeft, List.flatMap_append, List.length_append, Stream.readsLeft,
    Stream.readsLeft]

theorem Concat.bound_lt {columns : List String} {finished pending : List Source} {c : Concat}
    {w w' : W} {row : Row}
    (h : Concat.nextFrom closer columns finished pending w = (.ok (some row), c, w')) :
    Stream.readsLeft c.pending < Stream.readsLeft pending := by
  induction pending generalizing finished w with
  | nil => simp [nextFrom] at h
  | cons s rest ih =>
    have hread := s.length_reads_read
    rw [nextFrom] at h
    split at h
    · cases h
    · rename_i row' s' hrow
      cases h
      rw [hrow] at hread
      rw [readsLeft_cons, readsLeft_cons]
      exact Nat.add_lt_add_right (hread.2 _ rfl) _
    · split at h
      · cases h
      · rw [readsLeft_cons]
        exact Nat.lt_of_lt_of_le (ih h) (Nat.le_add_left _ _)

theorem Ordered.bound_lt {o o' : Ordered} {row : Row} (h : o.next = (.ok (some row), o')) :
    o'.heap.size + Stream.readsLeft o'.sources < o.heap.size + Stream.readsLeft o.sources := by
  unfold Ordered.next at h
  split at h
  · cases h
  · rename_i first heap hpop
    have hsize := Heap.size_of_pop hpop
    split at h
    · cases h
      dsimp only
      omega
    · rename_i s hget
      obtain ⟨hlt, rfl⟩ := List.getElem?_eq_some_iff.1 hget
      obtain ⟨before, after, hsplit, -, hset⟩ : ∃ before after,
          o.sources = before ++ o.sources[first.source] :: after ∧
            before.length = first.source ∧
            o.sources.set first.source o.sources[first.source].read.2 =
              before ++ o.sources[first.source].read.2 :: after :=
        List.exists_of_set hlt
      have hread := o.sources[first.source].length_reads_read
      have hleft : Stream.readsLeft o.sources = Stream.readsLeft before +
          (o.sources[first.source].reads.length + Stream.readsLeft after) := by
        conv_lhs => rw [hsplit]
        rw [readsLeft_append, readsLeft_cons]
      have hleft' := congrArg Stream.readsLeft hset
      rw [readsLeft_append, readsLeft_cons] at hleft'
      dsimp only at h
      split at h
      · cases h
      · cases h
        dsimp only
        omega
      · rename_i row' hrow
        cases h
        have := hread.2 _ hrow
        rw [Heap.size_push]
        dsimp only
        omega

/-- Every row that a stream delivers lowers its bound. -/
theorem Stream.bound_lt {s s' : Stream} {w w' : W} {row : Row}
    (h : s.next closer w = (.ok (some row), s', w')) : s'.bound < s.bound := by
  cases s with
  | single s =>
    have hread := s.length_reads_read
    simp only [Stream.next, Prod.mk.injEq] at h
    obtain ⟨hrow, rfl, rfl⟩ := h
    exact hread.2 _ hrow
  | concat c =>
    simp only [Stream.next, Prod.mk.injEq] at h
    obtain ⟨hrow, rfl, rfl⟩ := h
    exact Concat.bound_lt (Prod.ext hrow rfl)
  | ordered o =>
    simp only [Stream.next, Prod.mk.injEq] at h
    obtain ⟨hrow, rfl, rfl⟩ := h
    exact Ordered.bound_lt (Prod.ext hrow rfl)

/-- A stream delivers no more rows than its bound. -/
theorem Stream.Delivers.length_le_bound {s : Stream} {w : W} {rows : List Row}
    (h : Stream.Delivers closer s w rows) : rows.length ≤ s.bound := by
  induction h with
  | finish _ => exact Nat.zero_le _
  | row hnext _ ih => exact Nat.lt_of_le_of_lt ih (bound_lt hnext)

/-! ## Result sets -/

namespace ResultSet

/-- A result set that is open. -/
def opened (strategy : MergeStrategy) (columns : List String) (width : Option Nat)
    (reader : Reader) : ResultSet :=
  { reader, strategy, columns, width }

variable {strategy : MergeStrategy} {columns : List String} {width : Option Nat}
  {reader reader' : Reader} {w w' : W} {row : Row} {rows : List Row} {fuel : Nat}

theorem readAllFrom_finish (h : reader.next closer w = (.ok none, reader', w')) :
    ((opened strategy columns width reader).readAllFrom closer fuel w).1 = .ok [] := by
  cases fuel with
  | zero => rfl
  | succ fuel =>
    simp only [readAllFrom, next, opened, h]
    rfl

theorem readAllFrom_row (h : reader.next closer w = (.ok (some row), reader', w')) :
    ((opened strategy columns width reader).readAllFrom closer (fuel + 1) w).1 =
      ((opened strategy columns width reader').readAllFrom closer fuel w').1.map
        (cutTo width row :: ·) := by
  simp only [readAllFrom, next, opened, h]
  rfl

theorem readAllFrom_error {e : Error} (h : reader.next closer w = (.error e, reader', w')) :
    ((opened strategy columns width reader).readAllFrom closer (fuel + 1) w).1 = .error e := by
  simp only [readAllFrom, next, opened, h]
  rfl

end ResultSet

/-! ## Pages of what is delivered -/

variable {s : Stream} {w : W} {rows : List Row}

/-- Without a row on the page, a read finds the end. -/
theorem Reader.nextIn_finish {take skip : Nat} (h : Stream.Delivers closer s w rows)
    (hend : (rows.drop skip).take take = []) :
    ∃ reader w', Reader.nextIn closer take skip s w = (.ok none, reader, w') := by
  induction skip generalizing s w rows with
  | zero =>
    cases take with
    | zero => exact ⟨_, _, rfl⟩
    | succ take =>
      cases h with
      | finish hnext => exact ⟨_, _, by simp only [nextIn, hnext]; rfl⟩
      | row _ _ => cases hend
  | succ skip ih =>
    cases h with
    | finish hnext => exact ⟨_, _, by simp only [nextIn, hnext]; rfl⟩
    | row hnext hrest =>
      simp only [nextIn, hnext]
      exact ih hrest hend

/-- Rows before the page are read and dropped. -/
theorem Reader.nextIn_row {take skip : Nat} {before later : List Row} {row : Row}
    (h : Stream.Delivers closer s w (before ++ row :: later)) (hskip : before.length = skip) :
    ∃ s' w', Reader.nextIn closer (take + 1) skip s w =
        (.ok (some row), ⟨s', some ⟨0, take⟩⟩, w') ∧ Stream.Delivers closer s' w' later := by
  induction before generalizing s w skip with
  | nil =>
    subst hskip
    cases h with
    | row hnext hrest => exact ⟨_, _, by simp only [List.length_nil, nextIn, hnext], hrest⟩
  | cons _ before ih =>
    subst hskip
    cases h with
    | row hnext hrest =>
      simp only [List.length_cons, nextIn, hnext]
      exact ih hrest rfl

namespace ResultSet

variable {strategy : MergeStrategy} {columns : List String} {width : Option Nat} {fuel : Nat}

/-- Without a page, all rows come out. -/
theorem readAllFrom_delivers (h : Stream.Delivers closer s w rows) (hfuel : rows.length ≤ fuel) :
    ((opened strategy columns width ⟨s, none⟩).readAllFrom closer fuel w).1 =
      .ok (rows.map (cutTo width)) := by
  induction h generalizing fuel with
  | @finish s s' w w' hnext =>
    have hread : (Reader.mk s none).next closer w = (.ok none, ⟨s', none⟩, w') := by
      simp only [Reader.next, hnext]
    exact readAllFrom_finish hread
  | @row s s' w w' row _ hnext _ ih =>
    cases fuel with
    | zero => cases hfuel
    | succ fuel =>
      have hread : (Reader.mk s none).next closer w = (.ok (some row), ⟨s', none⟩, w') := by
        simp only [Reader.next, hnext]
      rw [readAllFrom_row hread, ih (Nat.le_of_succ_le_succ hfuel)]
      rfl

/-- With a page, its rows come out. -/
theorem readAllFrom_page {skip take : Nat} (h : Stream.Delivers closer s w rows)
    (hfuel : ((rows.drop skip).take take).length ≤ fuel) :
    ((opened strategy columns width ⟨s, some ⟨skip, take⟩⟩).readAllFrom closer fuel w).1 =
      .ok (((rows.drop skip).take take).map (cutTo width)) := by
  induction take generalizing skip s w rows fuel with
  | zero =>
    have hend : (rows.drop skip).take 0 = [] := List.take_zero
    obtain ⟨reader, w', hnext⟩ := Reader.nextIn_finish h hend
    have hread : (Reader.mk s (some ⟨skip, 0⟩)).next closer w = (.ok none, reader, w') := by
      simp only [Reader.next, hnext]
    rw [readAllFrom_finish hread, hend]
    rfl
  | succ take ih =>
    cases hpage : rows.drop skip with
    | nil =>
      have hend : (rows.drop skip).take (take + 1) = [] := by
        rw [hpage]
        rfl
      obtain ⟨reader, w', hnext⟩ := Reader.nextIn_finish h hend
      have hread : (Reader.mk s (some ⟨skip, take + 1⟩)).next closer w =
          (.ok none, reader, w') := by
        simp only [Reader.next, hnext]
      rw [readAllFrom_finish hread]
      rfl
    | cons row later =>
      rw [hpage] at hfuel
      have hsplit : rows = rows.take skip ++ row :: later := by
        rw [← hpage, List.take_append_drop]
      have hlength : (rows.take skip).length = skip := by
        have hpos : (rows.drop skip).length ≠ 0 := by simp [hpage]
        rw [List.length_drop] at hpos
        rw [List.length_take]
        omega
      rw [hsplit] at h
      obtain ⟨s', w', hnext, hrest⟩ : ∃ s' w', Reader.nextIn closer (take + 1) skip s w =
          (.ok (some row), ⟨s', some ⟨0, take⟩⟩, w') ∧ Stream.Delivers closer s' w' later :=
        Reader.nextIn_row h hlength
      have hread : (Reader.mk s (some ⟨skip, take + 1⟩)).next closer w =
          (.ok (some row), ⟨s', some ⟨0, take⟩⟩, w') := by
        simp only [Reader.next, hnext]
      cases fuel with
      | zero => cases hfuel
      | succ fuel =>
        have hlater : ((later.drop 0).take take).length ≤ fuel := Nat.le_of_succ_le_succ hfuel
        rw [readAllFrom_row hread, ih hrest hlater]
        rfl

end ResultSet

/-! ## Streams that answer alike -/

/-- The next `n` reads of two streams have the same results, up to one that delivers no row. -/
def Stream.Alike (closer : Closer W) : Nat → Stream → Stream → W → Prop
  | 0, _, _, _ => True
  | n + 1, s₁, s₂, w => ∃ found s₁' s₂' w',
    s₁.next closer w = (found, s₁', w') ∧ s₂.next closer w = (found, s₂', w') ∧
      ∀ row, found = .ok (some row) → Stream.Alike closer n s₁' s₂' w'

variable {s₁ s₂ : Stream}

/-- Skipping rows and reading one more answers alike, and the streams stay alike for the rest of the
page. -/
theorem Stream.Alike.nextIn {take skip : Nat} (h : Stream.Alike closer (skip + take) s₁ s₂ w) :
    ∃ found s₁' s₂' w' window,
      Reader.nextIn closer take skip s₁ w = (found, ⟨s₁', some window⟩, w') ∧
      Reader.nextIn closer take skip s₂ w = (found, ⟨s₂', some window⟩, w') ∧
      ∀ row, found = .ok (some row) → window = ⟨0, take - 1⟩ ∧
        Stream.Alike closer (take - 1) s₁' s₂' w' ∧
        s₁'.bound < s₁.bound ∧ s₂'.bound < s₂.bound := by
  induction skip generalizing s₁ s₂ w with
  | zero =>
    rw [Nat.zero_add] at h
    cases take with
    | zero => exact ⟨_, _, _, _, _, rfl, rfl, fun _ h => by cases h⟩
    | succ take =>
      obtain ⟨found, s₁', s₂', w', hnext₁, hnext₂, halike⟩ := h
      refine ⟨found, s₁', s₂', w', ⟨0, take⟩, ?_, ?_, fun row hrow => ?_⟩
      · simp only [Reader.nextIn, hnext₁]
      · simp only [Reader.nextIn, hnext₂]
      · subst hrow
        exact ⟨rfl, halike row rfl, Stream.bound_lt hnext₁, Stream.bound_lt hnext₂⟩
  | succ skip ih =>
    rw [Nat.succ_add] at h
    obtain ⟨found, s₁', s₂', w', hnext₁, hnext₂, halike⟩ := h
    rcases found with e | _ | row
    · refine ⟨.error e, s₁', s₂', w', ⟨skip, take⟩, ?_, ?_, fun _ h => by cases h⟩
      · simp only [Reader.nextIn, hnext₁]
      · simp only [Reader.nextIn, hnext₂]
    · refine ⟨.ok none, s₁', s₂', w', ⟨0, 0⟩, ?_, ?_, fun _ h => by cases h⟩
      · simp only [Reader.nextIn, hnext₁]
      · simp only [Reader.nextIn, hnext₂]
    · obtain ⟨found, s₁'', s₂'', w'', window, hread₁, hread₂, hrest⟩ := ih (halike row rfl)
      refine ⟨found, s₁'', s₂'', w'', window, ?_, ?_, fun row' hrow => ?_⟩
      · simp only [Reader.nextIn, hnext₁, hread₁]
      · simp only [Reader.nextIn, hnext₂, hread₂]
      · obtain ⟨hwindow, halike', hbound₁, hbound₂⟩ := hrest row' hrow
        exact ⟨hwindow, halike', hbound₁.trans (Stream.bound_lt hnext₁),
          hbound₂.trans (Stream.bound_lt hnext₂)⟩

/-- Streams that are alike up to the end of a page give the same page. -/
theorem ResultSet.readAllFrom_alike {strategy : MergeStrategy} {columns columns' : List String}
    {width : Option Nat} {take skip fuel₁ fuel₂ : Nat}
    (h : Stream.Alike closer (skip + take) s₁ s₂ w) (hfuel₁ : s₁.bound < fuel₁)
    (hfuel₂ : s₂.bound < fuel₂) :
    ((opened strategy columns width ⟨s₁, some ⟨skip, take⟩⟩).readAllFrom closer fuel₁ w).1 =
      ((opened strategy columns' width ⟨s₂, some ⟨skip, take⟩⟩).readAllFrom closer fuel₂ w).1 := by
  induction fuel₁ generalizing take skip s₁ s₂ w fuel₂ with
  | zero => cases hfuel₁
  | succ fuel₁ ih =>
    cases fuel₂ with
    | zero => cases hfuel₂
    | succ fuel₂ =>
      obtain ⟨found, s₁', s₂', w', window, hread₁, hread₂, hrest⟩ := h.nextIn
      have hnext₁ : (Reader.mk s₁ (some ⟨skip, take⟩)).next closer w =
          (found, ⟨s₁', some window⟩, w') := by simp only [Reader.next, hread₁]
      have hnext₂ : (Reader.mk s₂ (some ⟨skip, take⟩)).next closer w =
          (found, ⟨s₂', some window⟩, w') := by simp only [Reader.next, hread₂]
      rcases found with e | _ | row
      · rw [readAllFrom_error hnext₁, readAllFrom_error hnext₂]
      · rw [readAllFrom_finish hnext₁, readAllFrom_finish hnext₂]
      · obtain ⟨rfl, halike, hbound₁, hbound₂⟩ := hrest row rfl
        have hbound₂ : s₂'.bound < fuel₂ := by omega
        rw [readAllFrom_row hnext₁, readAllFrom_row hnext₂,
          ih (by rwa [Nat.zero_add]) (by omega) hbound₂]

end Sharding
