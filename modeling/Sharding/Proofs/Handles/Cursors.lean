import Sharding.Merge.Result
import Sharding.Proofs.Handles.Books

/-!
# Cursors of a result set

Reading a stream keeps its sources, with what is left of them, and only closes cursors.  So the
cursors that are open are at most those of the sources, from the merge of the sources to the close
of the result set, whichever of the reads and closes fail.
-/

namespace Sharding

variable {W : Type} {b : Books W} {closer : Closer W} {w : W} {f : Handles}

/-- The cursors of some sources. -/
def Source.allHandles (sources : List Source) : Handles :=
  (sources.map Source.handles).sum

/-- The cursors that a result set may have open. -/
def ResultSet.handles (r : ResultSet) : Handles :=
  if r.closed then 0 else Source.allHandles r.reader.stream.sources

/-! ## Sources -/

namespace Source

@[simp] theorem allHandles_nil : allHandles [] = 0 :=
  rfl

@[simp] theorem allHandles_cons (s : Source) (sources : List Source) :
    allHandles (s :: sources) = s.handles + allHandles sources :=
  rfl

@[simp] theorem allHandles_append (xs ys : List Source) :
    allHandles (xs ++ ys) = allHandles xs + allHandles ys := by
  rw [allHandles, List.map_append, List.sum_append]
  rfl

/-- Sources hold no statements. -/
theorem statements_allHandles (sources : List Source) : (allHandles sources).1 = 0 := by
  induction sources with
  | nil => rfl
  | cons s sources ih =>
    rw [allHandles_cons, Prod.fst_add, ih]
    rfl

theorem handles_read (s : Source) : s.read.2.handles = s.handles := by
  unfold read
  split
  · rfl
  · split <;> rfl

theorem handles_readAllFrom (s : Source) (reads : List (Except Error Row)) :
    (s.readAllFrom reads).2.handles = s.handles := by
  induction reads with
  | nil => rfl
  | cons read rest ih => cases read with
    | error e => rfl
    | ok row => exact ih

theorem handles_readAll (s : Source) : s.readAll.2.handles = s.handles := by
  unfold readAll
  split
  · rfl
  · exact handles_readAllFrom s _

theorem handles_close (s : Source) (w : W) : (s.close closer w).2.1.handles = s.handles := by
  obtain ⟨columns, reads, broken, handle, retains⟩ := s
  cases handle <;> cases retains <;> rfl

/-- A source that has been drained lives in memory. -/
theorem handles_of_drain {s s' : Source} (h : (s.drain closer w).1 = .ok s') : s'.handles = 0 := by
  unfold drain at h
  dsimp only at h
  cases hrows : s.readAll.1 with
  | error e =>
    rw [hrows] at h
    cases h
  | ok rows =>
    rw [hrows] at h
    cases hclosed : (s.readAll.2.close closer w).1 with
    | error e =>
      rw [hclosed] at h
      cases h
    | ok _ =>
      rw [hclosed] at h
      cases h
      rfl

end Source

namespace Books

/-- A close leaves at most the other cursors open. -/
theorem Has.closeSource (hc : b.Closes closer) {s : Source} (h : b.Has (s.handles + f) w) :
    b.Has f (s.close closer w).2.2 := by
  unfold Source.close
  unfold Source.handles at h
  cases hhandle : s.handle with
  | none =>
    rw [hhandle] at h
    exact h.mono (zero_add _) (zero_add f.2).le
  | some n =>
    rw [hhandle] at h
    obtain ⟨hstatements, hcursors⟩ := hc n w
    refine ⟨?_, ?_⟩
    · exact hstatements.trans (h.1.trans (zero_add _))
    · have hle : b.cursors w ≤ n ::ₘ f.2 := h.2
      refine hcursors.le.trans ((Multiset.erase_le_erase n hle).trans ?_)
      rw [Multiset.erase_cons_head]

/-- A close opens nothing. -/
theorem Has.closeSource' (hc : b.Closes closer) (s : Source) (h : b.Has f w) :
    b.Has f (s.close closer w).2.2 := by
  refine Has.closeSource hc (h.mono ?_ ?_)
  · exact (zero_add f.1).symm
  · exact Multiset.le_add_left f.2 _

theorem Has.closeAll (hc : b.Closes closer) {sources : List Source}
    (h : b.Has (Source.allHandles sources + f) w) :
    b.Has f (Source.closeAll closer sources w).2.2 := by
  induction sources generalizing w with
  | nil => rwa [Source.allHandles_nil, zero_add] at h
  | cons s sources ih =>
    rw [Source.allHandles_cons, add_assoc] at h
    exact ih (h.closeSource hc)

end Books

/-! ## Streams -/

namespace Stream

theorem allHandles_set {sources : List Source} {i : Nat} {s s' : Source} (hi : sources[i]? = some s)
    (hs : s'.handles = s.handles) :
    Source.allHandles (sources.set i s') = Source.allHandles sources := by
  obtain ⟨hlt, rfl⟩ := List.getElem?_eq_some_iff.1 hi
  rw [Source.allHandles, List.map_set, hs, Source.allHandles]
  congr 1
  refine List.ext_getElem (by simp) fun j hj hj' => ?_
  rw [List.getElem_set]
  split
  next h => subst h; simp
  next => rfl

theorem has_nextFrom (hc : b.Closes closer) (columns : List String) (finished pending : List Source)
    (h : b.Has f w) :
    Source.allHandles (concat (Concat.nextFrom closer columns finished pending w).2.1).sources =
        Source.allHandles (finished ++ pending) ∧
      b.Has f (Concat.nextFrom closer columns finished pending w).2.2 := by
  induction pending generalizing finished w with
  | nil => exact ⟨rfl, h⟩
  | cons s rest ih =>
    have hread := s.handles_read
    unfold Concat.nextFrom
    split
    next e s' hs =>
      rw [hs] at hread
      refine ⟨?_, h⟩
      simp only [sources, Source.allHandles_append, Source.allHandles_cons]
      rw [show s'.handles = s.handles from hread]
    next row s' hs =>
      rw [hs] at hread
      refine ⟨?_, h⟩
      simp only [sources, Source.allHandles_append, Source.allHandles_cons]
      rw [show s'.handles = s.handles from hread]
    next s' hs =>
      rw [hs] at hread
      have hclose : (s'.close closer w).2.1.handles = s'.handles := s'.handles_close w
      have hclosed := h.closeSource' hc s'
      split
      next e s'' w' hs' =>
        rw [hs'] at hclose hclosed
        refine ⟨?_, hclosed⟩
        simp only [sources, Source.allHandles_append, Source.allHandles_cons]
        rw [show s''.handles = s.handles from hclose.trans hread]
      next s'' w' hs' =>
        rw [hs'] at hclose hclosed
        obtain ⟨hsources, hw⟩ := ih (finished ++ [s'']) hclosed
        refine ⟨hsources.trans ?_, hw⟩
        simp only [Source.allHandles_append, Source.allHandles_cons, Source.allHandles_nil,
          add_zero, add_assoc]
        rw [show s''.handles = s.handles from hclose.trans hread]

theorem allHandles_next (o : Ordered) :
    Source.allHandles o.next.2.sources = Source.allHandles o.sources := by
  unfold Ordered.next
  split
  · rfl
  next first heap hpop =>
    split
    · rfl
    next s hs =>
      have hset := allHandles_set hs s.handles_read
      dsimp only
      split <;> exact hset

/-- Reading keeps the sources and opens nothing. -/
theorem has_next (hc : b.Closes closer) (s : Stream) (h : b.Has f w) :
    Source.allHandles (s.next closer w).2.1.sources = Source.allHandles s.sources ∧
      b.Has f (s.next closer w).2.2 := by
  cases s with
  | single s =>
    refine ⟨?_, h⟩
    simp only [next, sources, Source.allHandles_cons, Source.allHandles_nil, s.handles_read]
  | concat c => exact has_nextFrom hc c.columns c.finished c.pending h
  | ordered o => exact ⟨allHandles_next o, h⟩

/-- Closing a stream leaves none of its cursors open. -/
theorem has_close (hc : b.Closes closer) (s : Stream)
    (h : b.Has (Source.allHandles s.sources + f) w) : b.Has f (s.close closer w).2.2 := by
  cases s with
  | single s =>
    rw [sources, Source.allHandles_cons, Source.allHandles_nil, add_zero] at h
    exact h.closeSource hc
  | concat c => exact h.closeAll hc
  | ordered o => exact h.closeAll hc

end Stream

/-! ## Result sets -/

theorem Reader.has_nextIn (hc : b.Closes closer) (take skip : Nat) (s : Stream) (h : b.Has f w) :
    Source.allHandles (Reader.nextIn closer take skip s w).2.1.stream.sources =
        Source.allHandles s.sources ∧
      b.Has f (Reader.nextIn closer take skip s w).2.2 := by
  induction skip generalizing s w with
  | zero =>
    cases take with
    | zero => exact ⟨rfl, h⟩
    | succ take => exact s.has_next hc h
  | succ skip ih =>
    have hnext := s.has_next hc h
    unfold Reader.nextIn
    split
    next e s' w' hs =>
      rw [hs] at hnext
      exact hnext
    next s' w' hs =>
      rw [hs] at hnext
      exact hnext
    next row s' w' hs =>
      rw [hs] at hnext
      obtain ⟨hsources, hw⟩ := ih s' hnext.2
      exact ⟨hsources.trans hnext.1, hw⟩

theorem Reader.has_next (hc : b.Closes closer) (r : Reader) (h : b.Has f w) :
    Source.allHandles (r.next closer w).2.1.stream.sources = Source.allHandles r.stream.sources ∧
      b.Has f (r.next closer w).2.2 := by
  unfold Reader.next
  split
  · exact r.stream.has_next hc h
  · exact Reader.has_nextIn hc _ _ _ h

namespace ResultSet

theorem has_next (hc : b.Closes closer) (r : ResultSet) (h : b.Has f w) :
    (r.next closer w).2.1.handles = r.handles ∧ b.Has f (r.next closer w).2.2 := by
  unfold next
  split
  next => exact ⟨rfl, h⟩
  next hopen =>
    obtain ⟨hsources, hw⟩ := r.reader.has_next hc h
    refine ⟨?_, hw⟩
    simp only [handles, hopen, hsources]

theorem has_readAllFrom (hc : b.Closes closer) (fuel : Nat) (r : ResultSet) (h : b.Has f w) :
    (r.readAllFrom closer fuel w).2.1.handles = r.handles ∧
      b.Has f (r.readAllFrom closer fuel w).2.2 := by
  induction fuel generalizing r w with
  | zero => exact ⟨rfl, h⟩
  | succ fuel ih =>
    have hnext := r.has_next hc h
    unfold readAllFrom
    split
    next e r' w' hr =>
      rw [hr] at hnext
      exact hnext
    next r' w' hr =>
      rw [hr] at hnext
      exact hnext
    next row r' w' hr =>
      rw [hr] at hnext
      obtain ⟨hhandles, hw⟩ := ih r' hnext.2
      exact ⟨hhandles.trans hnext.1, hw⟩

theorem has_readAll (hc : b.Closes closer) (r : ResultSet) (h : b.Has f w) :
    (r.readAll closer w).2.1.handles = r.handles ∧ b.Has f (r.readAll closer w).2.2 :=
  has_readAllFrom hc _ r h

/-- A result set that is closed has no cursor open, whatever the close answered. -/
theorem has_close (hc : b.Closes closer) (r : ResultSet) (h : b.Has (r.handles + f) w) :
    (r.close closer w).2.1.handles = 0 ∧ b.Has f (r.close closer w).2.2 := by
  unfold handles at h
  unfold close
  split
  next hclosed =>
    rw [if_pos hclosed, zero_add] at h
    exact ⟨if_pos hclosed, h⟩
  next hopen =>
    rw [if_neg hopen] at h
    exact ⟨rfl, r.reader.stream.has_close hc h⟩

end ResultSet

/-! ## Merging -/

theorem Source.allHandles_primeFrom (keys : List SortKey) (index : Nat) (heap : Heap Entry)
    (sources : List Source) :
    allHandles (Ordered.primeFrom keys index heap sources).2 = allHandles sources := by
  induction sources generalizing index heap with
  | nil => rfl
  | cons s rest ih =>
    have hread := s.handles_read
    unfold Ordered.primeFrom
    split
    next e s' hs =>
      rw [hs] at hread
      simp only [allHandles_cons]
      rw [show s'.handles = s.handles from hread]
    next first s' hs =>
      rw [hs] at hread
      simp only [allHandles_cons, ih]
      rw [show s'.handles = s.handles from hread]

theorem has_create (hc : b.Closes closer) (columns : List String) (keys : List SortKey)
    {sources : List Source} (h : b.Has (Source.allHandles sources + f) w) :
    match Ordered.create closer columns keys sources w with
    | (.ok o, w') => b.Has (Source.allHandles o.sources + f) w'
    | (.error _, w') => b.Has f w' := by
  unfold Ordered.create
  have hprime := Source.allHandles_primeFrom keys 0 Heap.empty sources
  rcases hsources : Ordered.primeFrom keys 0 Heap.empty sources with ⟨e | heap, sources'⟩
  · rw [hsources] at hprime
    rw [← hprime] at h
    exact h.closeAll hc
  · rw [hsources] at hprime
    rw [← hprime] at h
    exact h

/-- The cursors behind a merge: those of the result set, or none when there is no result set.  A
merge that crashes is not spoken of. -/
def MergeHas (b : Books W) (f : Handles) (result : Except Stop ResultSet) (w : W) : Prop :=
  match result with
  | .ok r => b.Has (r.handles + f) w
  | .error (.error _) => b.Has f w
  | .error .crash => True

theorem has_buildMerge (hc : b.Closes closer) (plan : MergePlan) {sources : List Source}
    (h : b.Has (Source.allHandles sources + f) w) :
    MergeHas b f (buildMerge closer plan sources w).1 (buildMerge closer plan sources w).2 := by
  unfold buildMerge
  split
  · exact h
  next keys _ =>
    have hcreate := has_create hc plan.columns keys h
    rcases hmerged : Ordered.create closer plan.columns keys sources w with ⟨e | o, w'⟩
    all_goals
      rw [hmerged] at hcreate
      exact hcreate
  next groups _ =>
    have hclosed := h.closeAll hc
    unfold mergeGroups
    dsimp only
    split
    next => exact hclosed
    next => exact hclosed
    next =>
      split
      next =>
        refine hclosed.mono ?_ ?_
        · exact (zero_add _).symm
        · exact (zero_add _).symm.le
      next => trivial

/-- A merge keeps the cursors of its sources or closes them. -/
theorem has_mergeSources (hc : b.Closes closer) (maxRows : Nat) (s : Statement)
    {sources : List Source} (h : b.Has (Source.allHandles sources + f) w) :
    MergeHas b f (mergeSources closer maxRows s sources w).1
      (mergeSources closer maxRows s sources w).2 := by
  unfold mergeSources
  split
  next => exact h
  next first rest =>
    split
    next hsingle =>
      rw [Bool.and_eq_true, List.isEmpty_iff] at hsingle
      obtain ⟨rfl, -⟩ := hsingle
      exact h
    next =>
      split
      next plan _ => exact has_buildMerge hc plan h
      next cause _ => exact h.closeAll hc

end Sharding
