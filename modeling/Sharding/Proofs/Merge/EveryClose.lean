import Mathlib.Data.List.ReduceOption
import Sharding.Cursor.Scripted
import Sharding.Proofs.Merge.Closing

/-!
# Every source is closed

A closer that is logged notes each of its calls with the answer, so the log tells on which cursors
a close was called, in which order, and which of the closes failed.  A close takes effect also when
it fails, and nothing is assumed of which reads and which closes fail.

Closing several sources calls one close for each of them, in unit order, and answers with the first
failure (`closedInOrder_closeAll`).  Reading keeps the cursors of a stream and only adds to the log.
So no source is left open (`merge_closes_every_source`): not by a merge that ends without a result
set, nor by the close of a result set.
-/

namespace Sharding

variable {W : Type} {closer : Closer W}

/-! ## The log -/

/-- The cursors that were closed, in order, and what each close answered. -/
abbrev CloseLog := List (Nat × Except Error Unit)

/-- A closer that notes its calls. -/
def Closer.logged (closer : Closer W) : Closer (W × CloseLog) := fun n (w, log) =>
  let (answer, w) := closer n w
  (answer, w, log ++ [(n, answer)])

/-- The first failure among some closes. -/
def CloseLog.answer : CloseLog → Except Error Unit
  | [] => .ok ()
  | (_, .error e) :: _ => .error e
  | (_, .ok ()) :: closes => answer closes

/-- The numbers of the cursors behind some sources, in unit order. -/
def Source.cursors (sources : List Source) : List Nat :=
  (sources.map (·.handle)).reduceOption

/-- One close of each of some cursors was called, in their order, and the first failure is the
answer. -/
def ClosedInOrder (cursors : List Nat) (answer : Except Error Unit) (p q : W × CloseLog) : Prop :=
  ∃ closes : CloseLog, q.2 = p.2 ++ closes ∧ closes.map Prod.fst = cursors ∧
    closes.answer = answer

theorem CloseLog.answer_append (xs ys : CloseLog) :
    answer (xs ++ ys) = (answer xs).bind fun _ => answer ys := by
  induction xs with
  | nil => rfl
  | cons x xs ih =>
    obtain ⟨n, _ | _⟩ := x
    · rfl
    · exact ih

theorem ClosedInOrder.append {cursors cursors' : List Nat} {answer answer' : Except Error Unit}
    {p q q' : W × CloseLog} (h : ClosedInOrder cursors answer p q)
    (h' : ClosedInOrder cursors' answer' q q') :
    ClosedInOrder (cursors ++ cursors') (answer.bind fun _ => answer') p q' := by
  obtain ⟨xs, hxs, rfl, rfl⟩ := h
  obtain ⟨ys, hys, rfl, rfl⟩ := h'
  refine ⟨xs ++ ys, ?_, ?_, ?_⟩
  · rw [hys, hxs, List.append_assoc]
  · rw [List.map_append]
  · rw [CloseLog.answer_append]

/-- If no close failed, the log says so of each. -/
theorem ClosedInOrder.log_eq {cursors : List Nat} {p q : W × CloseLog}
    (h : ClosedInOrder cursors (.ok ()) p q) : q.2 = p.2 ++ cursors.map fun n => (n, .ok ()) := by
  obtain ⟨closes, hlog, rfl, hanswer⟩ := h
  rw [hlog]
  congr 1
  clear hlog
  induction closes with
  | nil => rfl
  | cons x closes ih =>
    obtain ⟨n, _ | _⟩ := x
    · cases hanswer
    · rw [List.map_cons, List.map_cons, ← ih hanswer]

/-! ## Closing sources -/

namespace Source

@[simp] theorem cursors_nil : cursors [] = [] :=
  rfl

@[simp] theorem cursors_cons (s : Source) (sources : List Source) :
    cursors (s :: sources) = s.handle.toList ++ cursors sources := by
  rw [cursors, List.map_cons]
  cases s.handle <;> rfl

@[simp] theorem cursors_append (xs ys : List Source) :
    cursors (xs ++ ys) = cursors xs ++ cursors ys := by
  rw [cursors, List.map_append, List.reduceOption_append]
  rfl

end Source

theorem Source.closedInOrder_close (s : Source) (p : W × CloseLog) :
    ClosedInOrder s.handle.toList (s.close closer.logged p).1 p (s.close closer.logged p).2.2 := by
  obtain ⟨w, log⟩ := p
  unfold Source.close
  cases s.handle with
  | none => exact ⟨[], (List.append_nil log).symm, rfl, rfl⟩
  | some n =>
    refine ⟨[(n, (closer n w).1)], rfl, rfl, ?_⟩
    show CloseLog.answer [(n, (closer n w).1)] = (closer n w).1
    cases (closer n w).1 <;> rfl

/-- Every source is closed, whichever of the closes fail. -/
theorem closedInOrder_closeAll (closer : Closer W) (sources : List Source) (p : W × CloseLog) :
    ClosedInOrder (Source.cursors sources) (Source.closeAll closer.logged sources p).1 p
      (Source.closeAll closer.logged sources p).2.2 := by
  induction sources generalizing p with
  | nil => exact ⟨[], (List.append_nil p.2).symm, rfl, rfl⟩
  | cons s sources ih =>
    rw [Source.cursors_cons]
    exact (s.closedInOrder_close p).append (ih _)

theorem Stream.closedInOrder_close (s : Stream) (p : W × CloseLog) :
    ClosedInOrder (Source.cursors s.sources) (s.close closer.logged p).1 p
      (s.close closer.logged p).2.2 := by
  cases s with
  | single s =>
    have hcursors : Source.cursors [s] = s.handle.toList := by
      rw [Source.cursors_cons, Source.cursors_nil, List.append_nil]
    rw [sources, hcursors]
    exact s.closedInOrder_close p
  | concat c => exact closedInOrder_closeAll closer (c.finished ++ c.pending) p
  | ordered o => exact closedInOrder_closeAll closer o.sources p

/-! ## Reading keeps the cursors -/

namespace Source

theorem handle_read (s : Source) : s.read.2.handle = s.handle := by
  unfold read
  split
  · rfl
  · split <;> rfl

theorem handle_close (closer : Closer W) (s : Source) (w : W) :
    (s.close closer w).2.1.handle = s.handle := by
  obtain ⟨columns, reads, broken, handle, retains⟩ := s
  cases handle <;> cases retains <;> rfl

theorem cursors_middle {s s' : Source} (h : s'.handle = s.handle) (before after : List Source) :
    cursors (before ++ s' :: after) = cursors (before ++ s :: after) := by
  simp only [cursors_append, cursors_cons, h]

theorem cursors_set {sources : List Source} {i : Nat} {s s' : Source} (hi : sources[i]? = some s)
    (h : s'.handle = s.handle) : cursors (sources.set i s') = cursors sources := by
  rw [cursors, cursors, List.map_set, h]
  congr 1
  refine List.ext_getElem? fun j => ?_
  rw [List.getElem?_set]
  split
  next hij =>
    obtain ⟨hlt, hs⟩ := List.getElem?_eq_some_iff.1 hi
    subst hij
    rw [List.length_map, if_pos hlt, List.getElem?_map, hi]
    rfl
  next => rfl

end Source

theorem Concat.cursors_nextFrom (columns : List String) (finished pending : List Source) (w : W) :
    Source.cursors (Stream.concat (nextFrom closer columns finished pending w).2.1).sources =
      Source.cursors (finished ++ pending) := by
  induction pending generalizing finished w with
  | nil => rfl
  | cons s rest ih =>
    have hread := s.handle_read
    unfold nextFrom
    split
    next e s' hs =>
      rw [hs] at hread
      exact Source.cursors_middle hread finished rest
    next row s' hs =>
      rw [hs] at hread
      exact Source.cursors_middle hread finished rest
    next s' hs =>
      rw [hs] at hread
      have hclose := s'.handle_close closer w
      split
      next e s'' w' hs' =>
        rw [hs'] at hclose
        exact Source.cursors_middle (hclose.trans hread) finished rest
      next s'' w' hs' =>
        rw [hs'] at hclose
        rw [ih, List.append_assoc, List.singleton_append]
        exact Source.cursors_middle (hclose.trans hread) finished rest

theorem Ordered.cursors_next (o : Ordered) :
    Source.cursors o.next.2.sources = Source.cursors o.sources := by
  unfold next
  split
  · rfl
  next first heap hpop =>
    split
    · rfl
    next s hs =>
      have hset := Source.cursors_set hs s.handle_read
      dsimp only
      split <;> exact hset

/-- Reading a stream keeps its cursors. -/
theorem Stream.cursors_next (closer : Closer W) (s : Stream) (w : W) :
    Source.cursors (s.next closer w).2.1.sources = Source.cursors s.sources := by
  cases s with
  | single s => exact Source.cursors_middle s.handle_read [] []
  | concat c => exact Concat.cursors_nextFrom c.columns c.finished c.pending w
  | ordered o => exact o.cursors_next

theorem Reader.cursors_nextIn (take skip : Nat) (s : Stream) (w : W) :
    Source.cursors (nextIn closer take skip s w).2.1.stream.sources =
      Source.cursors s.sources := by
  induction skip generalizing s w with
  | zero =>
    cases take with
    | zero => rfl
    | succ take => exact s.cursors_next closer w
  | succ skip ih =>
    have hnext := s.cursors_next closer w
    unfold nextIn
    split
    next e s' w' hs =>
      rw [hs] at hnext
      exact hnext
    next s' w' hs =>
      rw [hs] at hnext
      exact hnext
    next row s' w' hs =>
      rw [hs] at hnext
      exact (ih s' w').trans hnext

theorem Reader.cursors_next (r : Reader) (w : W) :
    Source.cursors (r.next closer w).2.1.stream.sources = Source.cursors r.stream.sources := by
  unfold next
  split
  · exact r.stream.cursors_next closer w
  · exact Reader.cursors_nextIn _ _ _ _

/-- Reading a result set keeps its cursors. -/
theorem ResultSet.cursors_next (r : ResultSet) (w : W) :
    Source.cursors (r.next closer w).2.1.reader.stream.sources =
      Source.cursors r.reader.stream.sources := by
  unfold next
  split
  · rfl
  · exact r.reader.cursors_next w

/-! ## Reading closes at most -/

namespace Closer.Keeps

variable {P : W → Prop} {w : W}

theorem nextFrom (hc : closer.Keeps P) (columns : List String) (finished pending : List Source)
    (h : P w) : P (Concat.nextFrom closer columns finished pending w).2.2 := by
  induction pending generalizing finished w with
  | nil => exact h
  | cons s rest ih =>
    unfold Concat.nextFrom
    split
    next => exact h
    next => exact h
    next s' hs =>
      have hclosed := hc.source s' h
      split
      next e s'' w' hs' =>
        rw [hs'] at hclosed
        exact hclosed
      next s'' w' hs' =>
        rw [hs'] at hclosed
        exact ih (finished ++ [s'']) hclosed

theorem streamNext (hc : closer.Keeps P) (s : Stream) (h : P w) : P (s.next closer w).2.2 := by
  cases s with
  | single s => exact h
  | concat c => exact hc.nextFrom c.columns c.finished c.pending h
  | ordered o => exact h

theorem nextIn (hc : closer.Keeps P) (take skip : Nat) (s : Stream) (h : P w) :
    P (Reader.nextIn closer take skip s w).2.2 := by
  induction skip generalizing s w with
  | zero =>
    cases take with
    | zero => exact h
    | succ take => exact hc.streamNext s h
  | succ skip ih =>
    have hnext := hc.streamNext s h
    unfold Reader.nextIn
    split
    next e s' w' hs =>
      rw [hs] at hnext
      exact hnext
    next s' w' hs =>
      rw [hs] at hnext
      exact hnext
    next row s' w' hs =>
      rw [hs] at hnext
      exact ih s' hnext

theorem readerNext (hc : closer.Keeps P) (r : Reader) (h : P w) : P (r.next closer w).2.2 := by
  unfold Reader.next
  split
  · exact hc.streamNext r.stream h
  · exact hc.nextIn _ _ r.stream h

theorem next (hc : closer.Keeps P) (r : ResultSet) (h : P w) : P (r.next closer w).2.2 := by
  unfold ResultSet.next
  split
  · exact h
  · exact hc.readerNext r.reader h

end Closer.Keeps

/-- What was logged stays in the log. -/
theorem Closer.keeps_logged (log : CloseLog) :
    closer.logged.Keeps fun p : W × CloseLog => log <+: p.2 :=
  fun _ _ h => h.trans (List.prefix_append _ _)

/-! ## Result sets -/

namespace ResultSet

/-- A result set after some reads, whatever they answered. -/
def readTimes (closer : Closer W) : Nat → ResultSet → W → ResultSet × W
  | 0, r, w => (r, w)
  | n + 1, r, w =>
    let (_, r, w) := r.next closer w
    readTimes closer n r w

/-- The result set was not closed and has these cursors. -/
structure Reads (cursors : List Nat) (r : ResultSet) : Prop where
  unclosed : r.closed = false
  cursors : Source.cursors r.reader.stream.sources = cursors

theorem Reads.next {cursors : List Nat} {r : ResultSet} (h : r.Reads cursors) (closer : Closer W)
    (w : W) :
    (r.next closer w).2.1.Reads cursors := by
  refine ⟨?_, (r.cursors_next w).trans h.cursors⟩
  unfold ResultSet.next
  split
  · exact h.unclosed
  · exact h.unclosed

/-- Reads keep the cursors, and what was logged before them. -/
theorem Reads.readTimes {cursors : List Nat} {r : ResultSet} (h : r.Reads cursors)
    (closer : Closer W) (n : Nat) (p : W × CloseLog) : (r.readTimes closer.logged n p).1.Reads cursors ∧
      p.2 <+: (r.readTimes closer.logged n p).2.2 := by
  induction n generalizing r p with
  | zero => exact ⟨h, List.prefix_refl _⟩
  | succ n ih =>
    obtain ⟨hreads, hlog⟩ := ih (h.next closer.logged p) (r.next closer.logged p).2.2
    exact ⟨hreads, ((Closer.keeps_logged p.2).next r (List.prefix_refl _)).trans hlog⟩

/-- A close closes each cursor, and nothing is done to a result set that was closed. -/
theorem Reads.close {cursors : List Nat} {r : ResultSet} (h : r.Reads cursors)
    (closer : Closer W) (p : W × CloseLog) :
    ClosedInOrder cursors (r.close closer.logged p).1 p (r.close closer.logged p).2.2 ∧
      (r.close closer.logged p).2.1.closed := by
  unfold ResultSet.close
  rw [h.unclosed]
  refine ⟨?_, rfl⟩
  rw [← h.cursors]
  exact r.reader.stream.closedInOrder_close p

theorem close_of_closed {r : ResultSet} (h : r.closed) (w : W) :
    r.close closer w = (.ok (), r, w) := by
  rw [close, if_pos h]

theorem next_of_closed {r : ResultSet} (h : r.closed) (w : W) :
    r.next closer w = (.error (.state .resultSetClosed), r, w) := by
  rw [next, if_pos h]

end ResultSet

/-! ## Merging -/

theorem Ordered.cursors_primeFrom (keys : List SortKey) (index : Nat) (heap : Heap Entry)
    (sources : List Source) :
    Source.cursors (primeFrom keys index heap sources).2 = Source.cursors sources := by
  induction sources generalizing index heap with
  | nil => rfl
  | cons s rest ih =>
    have hread := s.handle_read
    unfold primeFrom
    split
    next e s' hs =>
      rw [hs] at hread
      exact Source.cursors_middle hread [] rest
    next first s' hs =>
      rw [hs] at hread
      simp only [Source.cursors_cons, ih]
      rw [show s'.handle = s.handle from hread]

/-- What a merge has closed: all sources, or none when the result set is still to read them. -/
def MergeCloses (cursors : List Nat) (result : Except Stop ResultSet) (p q : W × CloseLog) :
    Prop :=
  match result with
  | .error _ => ∃ answer, ClosedInOrder cursors answer p q
  | .ok r => r.Reads cursors ∧ q.2 = p.2 ∨ r.Reads [] ∧ ClosedInOrder cursors (.ok ()) p q

theorem closes_create (closer : Closer W) (columns : List String) (keys : List SortKey)
    (sources : List Source) (p : W × CloseLog) :
    match Ordered.create closer.logged columns keys sources p with
    | (.ok o, q) => Source.cursors o.sources = Source.cursors sources ∧ q = p
    | (.error _, q) => ∃ answer, ClosedInOrder (Source.cursors sources) answer p q := by
  unfold Ordered.create
  have hprime := Ordered.cursors_primeFrom keys 0 Heap.empty sources
  rcases hprimed : Ordered.primeFrom keys 0 Heap.empty sources with ⟨e | heap, sources'⟩
  all_goals rw [hprimed] at hprime
  · rw [← hprime]
    exact ⟨_, closedInOrder_closeAll closer sources' p⟩
  · exact ⟨hprime, rfl⟩

theorem closes_mergeGroups (closer : Closer W) (columns : List String) (plan : GroupPlan)
    (sources : List Source) (p : W × CloseLog) :
    match mergeGroups closer.logged columns plan sources p with
    | (.ok s, q) => s.handle = none ∧ ClosedInOrder (Source.cursors sources) (.ok ()) p q
    | (.error _, q) => ∃ answer, ClosedInOrder (Source.cursors sources) answer p q := by
  unfold mergeGroups
  have hclosed := closedInOrder_closeAll closer sources p
  rcases hclose : Source.closeAll closer.logged sources p with ⟨answer, sources', q⟩
  rw [hclose] at hclosed
  cases gather plan 0 [] (sources.flatMap (·.outcomes)) with
  | error e => exact ⟨answer, hclosed⟩
  | ok groups =>
    cases answer with
    | error e => exact ⟨_, hclosed⟩
    | ok done =>
      dsimp only
      cases plan.finish groups with
      | none => exact ⟨_, hclosed⟩
      | some rows => exact ⟨rfl, hclosed⟩

theorem closes_buildMerge (closer : Closer W) (plan : MergePlan) (sources : List Source)
    (p : W × CloseLog) :
    MergeCloses (Source.cursors sources) (buildMerge closer.logged plan sources p).1 p
      (buildMerge closer.logged plan sources p).2 := by
  unfold buildMerge
  split
  next => exact .inl ⟨⟨rfl, rfl⟩, rfl⟩
  next keys _ =>
    have hcreate := closes_create closer plan.columns keys sources p
    rcases hmerge : Ordered.create closer.logged plan.columns keys sources p with ⟨e | o, q⟩
    all_goals rw [hmerge] at hcreate
    · exact hcreate
    · exact .inl ⟨⟨rfl, hcreate.1⟩, congrArg Prod.snd hcreate.2⟩
  next groups _ =>
    have hmerged := closes_mergeGroups closer plan.columns groups sources p
    rcases hmerge : mergeGroups closer.logged plan.columns groups sources p with ⟨e | s, q⟩
    all_goals rw [hmerge] at hmerged
    · exact hmerged
    · refine .inr ⟨⟨rfl, ?_⟩, hmerged.2⟩
      show Source.cursors [s] = []
      rw [Source.cursors_cons, hmerged.1]
      rfl

/-- A merge without a result set has closed all its sources; otherwise the result set has their
cursors, or the merge has closed them and no close failed. -/
theorem closes_mergeSources (closer : Closer W) (maxRows : Nat) (s : Statement)
    (sources : List Source) (p : W × CloseLog) :
    MergeCloses (Source.cursors sources) (mergeSources closer.logged maxRows s sources p).1 p
      (mergeSources closer.logged maxRows s sources p).2 := by
  unfold mergeSources
  split
  next => exact .inl ⟨⟨rfl, rfl⟩, rfl⟩
  next first rest =>
    split
    next hsingle =>
      rw [Bool.and_eq_true, List.isEmpty_iff] at hsingle
      obtain ⟨rfl, -⟩ := hsingle
      exact .inl ⟨⟨rfl, rfl⟩, rfl⟩
    next =>
      split
      next plan _ => exact closes_buildMerge closer plan (first :: rest) p
      next cause _ => exact ⟨_, closedInOrder_closeAll closer (first :: rest) p⟩

/-- No source stays open, whichever of the reads and closes fail.

A merge that ends without a result set has called one close for each source, in unit order.  A
result set closes, after any number of reads, each source in unit order and answers with the first
failure, unless the merge itself has closed each source and no close failed.  Then it is closed:
further closes succeed and further reads answer with an error, and neither touches the sources. -/
theorem merge_closes_every_source (closer : Closer W) (maxRows : Nat) (s : Statement)
    (sources : List Source) (w : W) :
    (∀ stop p, mergeSources closer.logged maxRows s sources (w, []) = (.error stop, p) →
      p.2.map Prod.fst = Source.cursors sources) ∧
    ∀ r p, mergeSources closer.logged maxRows s sources (w, []) = (.ok r, p) →
      ∀ n r₁ q, r.readTimes closer.logged n p = (r₁, q) →
        ∀ answer r₂ q', r₁.close closer.logged q = (answer, r₂, q') →
          (∃ closes, q'.2 = q.2 ++ closes ∧ closes.answer = answer ∧
            (closes.map Prod.fst = Source.cursors sources ∨
              closes = [] ∧ p.2 = (Source.cursors sources).map fun n => (n, .ok ()))) ∧
          (∀ n ∈ Source.cursors sources, n ∈ q'.2.map Prod.fst) ∧
          r₂.close closer.logged q' = (.ok (), r₂, q') ∧
          r₂.next closer.logged q' = (.error (.state .resultSetClosed), r₂, q') := by
  have hmerged := closes_mergeSources closer maxRows s sources (w, [])
  refine ⟨fun stop p hmerge => ?_, fun r p hmerge n r₁ q hread answer r₂ q' hclose => ?_⟩
  · rw [hmerge] at hmerged
    obtain ⟨_, closes, hlog, hcursors, -⟩ := hmerged
    rw [hlog, List.nil_append, hcursors]
  · rw [hmerge] at hmerged
    rcases hmerged with ⟨hreads, -⟩ | ⟨hreads, hclosed⟩
    · -- the sources are closed by the close of the result set
      obtain ⟨hreads₁, -⟩ := hreads.readTimes closer n p
      rw [hread] at hreads₁
      obtain ⟨hcloses, hdone⟩ := hreads₁.close closer q
      rw [hclose] at hcloses hdone
      obtain ⟨closes, hlog, hcursors, hanswer⟩ := hcloses
      refine ⟨⟨closes, hlog, hanswer, .inl hcursors⟩, fun m hm => ?_,
        ResultSet.close_of_closed hdone q', ResultSet.next_of_closed hdone q'⟩
      rw [hlog, List.map_append, hcursors]
      exact List.mem_append_right _ hm
    · -- the merge has closed the sources, and the result set has none of them
      obtain ⟨hreads₁, hkept⟩ := hreads.readTimes closer n p
      rw [hread] at hreads₁ hkept
      obtain ⟨hcloses, hdone⟩ := hreads₁.close closer q
      rw [hclose] at hcloses hdone
      obtain ⟨closes, hlog, hcursors, hanswer⟩ := hcloses
      have hall := hclosed.log_eq
      rw [List.nil_append] at hall
      refine ⟨⟨closes, hlog, hanswer, .inr ⟨List.map_eq_nil_iff.1 hcursors, hall⟩⟩, fun m hm => ?_,
        ResultSet.close_of_closed hdone q', ResultSet.next_of_closed hdone q'⟩
      have hsubset : (p.2.map Prod.fst) ⊆ q'.2.map Prod.fst := by
        rw [hlog]
        exact ((hkept.trans (List.prefix_append q.2 closes)).map Prod.fst).subset
      refine hsubset ?_
      rw [hall, List.map_map]
      exact List.mem_map.2 ⟨m, hm, rfl⟩

/-- A statement whose rows come one source after the other. -/
def showTables : Statement :=
  .query ⟨.administration, ⟨"SHOW TABLES", []⟩, [], [], {}⟩

/-- Three sources: the first is empty, a read of the second fails, and the third has a row. -/
def troubledSources : List Source :=
  [{ columns := ["name"], reads := [], handle := some 0 },
    { columns := ["name"], reads := [.error .cancelled], handle := some 1 },
    { columns := ["name"], reads := [.ok [.text "t_order"]], handle := some 2 }]

/-- The closes of the second and of the third source fail. -/
def troubledWorld : ScriptedSources where
  closed := [false, false, false]
  failures := [none, some (.connection "cursor" "second"), some (.connection "cursor" "third")]

theorem merge_closes_every_source_troubled :
    ∃ r p, mergeSources ScriptedSources.closer.logged 10 showTables troubledSources
        (troubledWorld, []) = (.ok r, p) ∧
      ∃ r₁ q, r.readTimes ScriptedSources.closer.logged 2 p = (r₁, q) ∧
      ∃ r₂ q', r₁.close ScriptedSources.closer.logged q =
        (.error (.connection "cursor" "second"), r₂, q') ∧
      (∀ n ∈ Source.cursors troubledSources, n ∈ q'.2.map Prod.fst) ∧
      r₂.close ScriptedSources.closer.logged q' = (.ok (), r₂, q') := by
  have h := (merge_closes_every_source ScriptedSources.closer 10 showTables troubledSources
    troubledWorld).2 _ _ rfl 2 _ _ rfl _ _ _ rfl
  exact ⟨_, _, rfl, _, _, rfl, _, _, rfl, h.2.1, h.2.2.1⟩

end Sharding
