import Sharding.Merge.Result

/-!
# Reading without handles

The handle of a source matters to the world that closes it, and not to the rows: where closing does
not fail, sources that differ in their handles only are merged and read alike.  `bare` forms have no
handles, and they are read without a world.
-/

namespace Sharding

variable {W : Type} {closer : Closer W}

/-- The close of a source that has no handle. -/
def idleCloser : Closer Unit :=
  fun _ _ => (.ok (), ())

/-- No close fails. -/
def NeverFails (closer : Closer W) : Prop :=
  ∀ n w, (closer n w).1 = .ok ()

/-- A source without its handle. -/
def Source.bare (s : Source) : Source :=
  { s with handle := none }

/-- Sources one after the other without their handles. -/
def Concat.bare (c : Concat) : Concat :=
  { c with finished := c.finished.map Source.bare, pending := c.pending.map Source.bare }

/-- Merged sources without their handles. -/
def Ordered.bare (o : Ordered) : Ordered :=
  { o with sources := o.sources.map Source.bare }

/-- A stream without handles. -/
def Stream.bare : Stream → Stream
  | single s => single s.bare
  | concat c => concat c.bare
  | ordered o => ordered o.bare

/-- A reader without handles. -/
def Reader.bare (r : Reader) : Reader :=
  { r with stream := r.stream.bare }

/-- A result set without handles. -/
def ResultSet.bare (r : ResultSet) : ResultSet :=
  { r with reader := r.reader.bare }

/-! ## Sources -/

namespace Source

theorem read_bare (s : Source) : s.bare.read = (s.read.1, s.read.2.bare) := by
  obtain ⟨columns, reads, broken, handle, retains⟩ := s
  cases broken with
  | some e => rfl
  | none =>
    rcases reads with _ | ⟨_ | _, _⟩ <;> rfl

/-- A close succeeds and leaves behind what it leaves of the bare source. -/
theorem close_bare (hc : NeverFails closer) (s : Source) (w : W) :
    (s.close closer w).1 = .ok () ∧
      (s.close closer w).2.1.bare = (s.bare.close idleCloser ()).2.1 := by
  obtain ⟨columns, reads, broken, handle, retains⟩ := s
  cases handle with
  | none => cases retains <;> exact ⟨rfl, rfl⟩
  | some n => cases retains <;> exact ⟨hc n w, rfl⟩

theorem closeAll_bare (hc : NeverFails closer) (sources : List Source) (w : W) :
    (closeAll closer sources w).1 = .ok () := by
  induction sources generalizing w with
  | nil => rfl
  | cons s sources ih =>
    show (s.close closer w).1.bind _ = _
    rw [(s.close_bare hc w).1]
    exact ih _

theorem readAllFrom_ok (s : Source) (rows : List Row) :
    s.readAllFrom (rows.map .ok) = (.ok rows, { s with reads := [] }) := by
  induction rows with
  | nil => rfl
  | cons row rows ih =>
    rw [List.map_cons]
    unfold readAllFrom
    rw [ih]
    rfl

/-- A source of rows is drained to the same rows, whatever its handle is. -/
theorem drain_of_bare (hc : NeverFails closer) {s : Source} {columns : List String}
    {rows : List Row} (hs : s.bare = ofRows columns rows) (w : W) :
    (s.drain closer w).1 = .ok (ofRows columns rows) := by
  obtain ⟨_, _, _, handle, _⟩ := s
  cases hs
  unfold drain readAll
  dsimp only
  rw [readAllFrom_ok]
  cases handle with
  | none => rfl
  | some n =>
    have hclosed := hc n w
    unfold close
    dsimp only
    rw [hclosed]
    rfl

end Source

/-! ## Streams -/

theorem Concat.nextFrom_bare (hc : NeverFails closer) (columns : List String)
    (finished pending : List Source) (w : W) :
    let next := nextFrom closer columns finished pending w
    let bareNext := nextFrom idleCloser columns (finished.map Source.bare)
      (pending.map Source.bare) ()
    next.1 = bareNext.1 ∧ next.2.1.bare = bareNext.2.1 := by
  induction pending generalizing finished w with
  | nil => exact ⟨rfl, rfl⟩
  | cons s rest ih =>
    rw [List.map_cons]
    unfold nextFrom
    rw [s.read_bare]
    rcases hread : s.read with ⟨e | _ | row, s'⟩
    · exact ⟨rfl, by simp [Concat.bare]⟩
    · obtain ⟨hclosed, hleft⟩ := s'.close_bare hc w
      rcases hclose : s'.close closer w with ⟨_ | _, s'', w'⟩ <;> rw [hclose] at hclosed hleft
      · cases hclosed
      · have hbare : s'.bare.close idleCloser () = (.ok (), s''.bare, ()) := by
          rw [show s''.bare = _ from hleft]
          rfl
        have hrest := ih (finished ++ [s'']) w'
        rw [List.map_append, List.map_singleton] at hrest
        simp only [hbare, hclose]
        exact hrest
    · exact ⟨rfl, by simp [Concat.bare]⟩

theorem Ordered.next_bare (o : Ordered) : o.bare.next = (o.next.1, o.next.2.bare) := by
  obtain ⟨columns, keys, sources, heap⟩ := o
  simp only [Ordered.bare, Ordered.next]
  rcases heap.pop (Entry.compare keys) with _ | ⟨first, heap⟩
  · rfl
  · dsimp only
    rw [List.getElem?_map]
    rcases hsource : sources[first.source]? with _ | s
    · rfl
    · simp only [Option.map_some, s.read_bare, ← List.map_set]
      rcases s.read with ⟨_ | _ | row, s'⟩ <;> rfl

/-- Reading gives the same row and leaves the same behind. -/
theorem Stream.next_bare (hc : NeverFails closer) (s : Stream) (w : W) :
    (s.next closer w).1 = (s.bare.next idleCloser ()).1 ∧
      (s.next closer w).2.1.bare = (s.bare.next idleCloser ()).2.1 := by
  cases s with
  | single s =>
    have hread := s.read_bare
    refine ⟨(congrArg Prod.fst hread).symm, ?_⟩
    exact congrArg Stream.single (congrArg Prod.snd hread).symm
  | concat c =>
    obtain ⟨hrow, hleft⟩ := Concat.nextFrom_bare hc c.columns c.finished c.pending w
    exact ⟨hrow, congrArg Stream.concat hleft⟩
  | ordered o =>
    have hnext := o.next_bare
    refine ⟨(congrArg Prod.fst hnext).symm, ?_⟩
    exact congrArg Stream.ordered (congrArg Prod.snd hnext).symm

theorem Stream.bound_bare (s : Stream) : s.bare.bound = s.bound := by
  have hreads : ∀ sources : List Source,
      readsLeft (sources.map Source.bare) = readsLeft sources := fun sources => by
    simp only [readsLeft, List.flatMap_map]
    rfl
  cases s with
  | single s => rfl
  | concat c => exact hreads c.pending
  | ordered o => exact congrArg (o.heap.size + ·) (hreads o.sources)

/-! ## Result sets -/

theorem Reader.nextIn_bare (hc : NeverFails closer) (take skip : Nat) (s : Stream) (w : W) :
    (Reader.nextIn closer take skip s w).1 = (Reader.nextIn idleCloser take skip s.bare ()).1 ∧
      (Reader.nextIn closer take skip s w).2.1.bare =
        (Reader.nextIn idleCloser take skip s.bare ()).2.1 := by
  induction skip generalizing s w with
  | zero =>
    cases take with
    | zero => exact ⟨rfl, rfl⟩
    | succ take =>
      obtain ⟨hrow, hleft⟩ := s.next_bare hc w
      exact ⟨hrow, congrArg (Reader.mk · (some ⟨0, take⟩)) hleft⟩
  | succ skip ih =>
    obtain ⟨hrow, hleft⟩ := s.next_bare hc w
    unfold Reader.nextIn
    rcases hnext : s.next closer w with ⟨_ | _ | row, s', w'⟩
    all_goals
      rw [hnext] at hrow hleft
      rcases hbare : s.bare.next idleCloser () with ⟨reply, bare, _⟩
      rw [hbare] at hrow hleft
      subst hrow
      subst hleft
    · exact ⟨rfl, rfl⟩
    · exact ⟨rfl, rfl⟩
    · exact ih s' w'

theorem Reader.next_bare (hc : NeverFails closer) (r : Reader) (w : W) :
    (r.next closer w).1 = (r.bare.next idleCloser ()).1 ∧
      (r.next closer w).2.1.bare = (r.bare.next idleCloser ()).2.1 := by
  obtain ⟨stream, window⟩ := r
  cases window with
  | none =>
    obtain ⟨hrow, hleft⟩ := stream.next_bare hc w
    exact ⟨hrow, congrArg (Reader.mk · none) hleft⟩
  | some window => exact Reader.nextIn_bare hc _ _ _ _

namespace ResultSet

theorem next_bare (hc : NeverFails closer) (r : ResultSet) (w : W) :
    (r.next closer w).1 = (r.bare.next idleCloser ()).1 ∧
      (r.next closer w).2.1.bare = (r.bare.next idleCloser ()).2.1 := by
  obtain ⟨reader, strategy, columns, width, closed⟩ := r
  cases closed with
  | true => exact ⟨rfl, rfl⟩
  | false =>
    obtain ⟨hrow, hleft⟩ := reader.next_bare hc w
    refine ⟨?_, ?_⟩
    · exact congrArg (Except.map (Option.map (cutTo width))) hrow
    · exact congrArg (ResultSet.mk · strategy columns width false) hleft

theorem readAllFrom_bare (hc : NeverFails closer) (fuel : Nat) (r : ResultSet) (w : W) :
    (r.readAllFrom closer fuel w).1 = (r.bare.readAllFrom idleCloser fuel ()).1 := by
  induction fuel generalizing r w with
  | zero => rfl
  | succ fuel ih =>
    obtain ⟨hrow, hleft⟩ := r.next_bare hc w
    unfold readAllFrom
    rcases hnext : r.next closer w with ⟨_ | _ | row, r', w'⟩
    all_goals
      rw [hnext] at hrow hleft
      rcases hbare : r.bare.next idleCloser () with ⟨reply, bare, _⟩
      rw [hbare] at hrow hleft
      subst hrow
      subst hleft
    · rfl
    · rfl
    · exact congrArg (Except.map (row :: ·)) (ih r' w')

/-- Result sets that differ in handles only have the same rows. -/
theorem readAll_bare (hc : NeverFails closer) (r : ResultSet) (w : W) :
    (r.readAll closer w).1 = (r.bare.readAll idleCloser ()).1 := by
  have hbound : r.bare.reader.stream.bound = r.reader.stream.bound := r.reader.stream.bound_bare
  rw [readAll, readAll, hbound]
  exact readAllFrom_bare hc _ r w

end ResultSet

/-! ## Merging -/

theorem Ordered.primeFrom_bare (keys : List SortKey) (index : Nat) (heap : Heap Entry)
    (sources : List Source) :
    primeFrom keys index heap (sources.map Source.bare) =
      ((primeFrom keys index heap sources).1,
        (primeFrom keys index heap sources).2.map Source.bare) := by
  induction sources generalizing index heap with
  | nil => rfl
  | cons s rest ih =>
    rw [List.map_cons]
    unfold primeFrom
    rw [s.read_bare]
    rcases s.read with ⟨_ | _ | row, s'⟩
    · rfl
    · simp only [ih]
      rfl
    · simp only [ih]
      rfl

theorem Ordered.create_bare (columns : List String) (keys : List SortKey) (sources : List Source)
    (w : W) :
    (create closer columns keys sources w).1.map Ordered.bare =
      (create idleCloser columns keys (sources.map Source.bare) ()).1 := by
  unfold create
  rw [primeFrom_bare]
  rcases primeFrom keys 0 Heap.empty sources with ⟨_ | _, sources'⟩ <;> rfl

theorem mergeGroups_bare (hc : NeverFails closer) (columns : List String) (plan : GroupPlan)
    (sources : List Source) (w : W) :
    (mergeGroups closer columns plan sources w).1.map Source.bare =
      (mergeGroups idleCloser columns plan (sources.map Source.bare) ()).1 := by
  have houtcomes : (sources.map Source.bare).flatMap (·.outcomes) =
      sources.flatMap (·.outcomes) := by
    rw [List.flatMap_map]
    rfl
  have hclosed := Source.closeAll_bare hc sources w
  have hidle := Source.closeAll_bare (fun _ _ => rfl : NeverFails idleCloser)
    (sources.map Source.bare) ()
  unfold mergeGroups
  rw [houtcomes]
  generalize gather plan 0 [] (sources.flatMap (·.outcomes)) = gathered
  rcases hall : Source.closeAll closer sources w with ⟨_ | _, sources', w'⟩ <;> rw [hall] at hclosed
  · cases hclosed
  rcases hbare : Source.closeAll idleCloser (sources.map Source.bare) () with ⟨_ | _, bare, _⟩ <;>
    rw [hbare] at hidle
  · cases hidle
  rcases gathered with _ | groups
  · rfl
  · dsimp only
    rcases plan.finish groups with _ | rows <;> rfl

theorem find?_columns_bare (columns : List String) (sources : List (Source × Nat)) :
    ((sources.map (Prod.map Source.bare id)).find? fun (s, _) => !sameColumns s.columns columns) =
      (sources.find? fun (s, _) => !sameColumns s.columns columns).map
        (Prod.map Source.bare id) := by
  rw [List.find?_map]
  rfl

theorem agreedColumns_bare (sources : List Source) :
    agreedColumns (sources.map Source.bare) = agreedColumns sources := by
  rcases sources with _ | ⟨first, rest⟩
  · rfl
  · have hfind := find?_columns_bare first.columns rest.zipIdx
    rw [← List.zipIdx_map] at hfind
    rw [List.map_cons]
    have hcolumns : first.bare.columns = first.columns := rfl
    unfold agreedColumns
    dsimp only
    rw [hcolumns, hfind]
    rcases rest.zipIdx.find? _ with _ | ⟨s, i⟩ <;> rfl

theorem planMerge_bare (maxRows : Nat) (s : Statement) (sources : List Source) :
    planMerge maxRows s (sources.map Source.bare) = planMerge maxRows s sources := by
  rw [planMerge, planMerge, agreedColumns_bare]

theorem buildMerge_bare (hc : NeverFails closer) (plan : MergePlan) (sources : List Source)
    (w : W) :
    (buildMerge closer plan sources w).1.map ResultSet.bare =
      (buildMerge idleCloser plan (sources.map Source.bare) ()).1 := by
  obtain ⟨columns, kind, width, page⟩ := plan
  cases kind with
  | concat => rfl
  | ordered keys =>
    have hcreate : (Ordered.create closer columns keys sources w).1.map Ordered.bare = _ :=
      Ordered.create_bare columns keys sources w
    simp only [buildMerge]
    rw [← hcreate]
    cases (Ordered.create closer columns keys sources w).1 <;> rfl
  | grouped groups =>
    have hmerged := mergeGroups_bare hc columns groups sources w
    simp only [buildMerge]
    rw [← hmerged]
    cases (mergeGroups closer columns groups sources w).1 <;> rfl

/-- Sources that differ in their handles only have the same result set, up to its handles. -/
theorem mergeSources_bare (hc : NeverFails closer) (maxRows : Nat) (s : Statement)
    (sources : List Source) (w : W) :
    (mergeSources closer maxRows s sources w).1.map ResultSet.bare =
      (mergeSources idleCloser maxRows s (sources.map Source.bare) ()).1 := by
  rcases sources with _ | ⟨first, rest⟩
  · rfl
  · have hplan := planMerge_bare maxRows s (first :: rest)
    have hbuild := fun plan => buildMerge_bare hc plan (first :: rest) w
    rw [List.map_cons] at hplan hbuild ⊢
    simp only [mergeSources, List.isEmpty_map, hplan]
    by_cases hsingle : (rest.isEmpty && s.isSelect) = true
    · rw [if_pos hsingle, if_pos hsingle]
      rfl
    · rw [if_neg hsingle, if_neg hsingle]
      rcases planMerge maxRows s (first :: rest) with cause | plan
      · rfl
      · exact hbuild plan

end Sharding
