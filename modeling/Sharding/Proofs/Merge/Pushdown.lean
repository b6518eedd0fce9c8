import Sharding.Proofs.Merge.Ordered
import Sharding.Proofs.Merge.Page
import Sharding.Proofs.Merge.Planning
import Sharding.Route.Engine

/-!
# Pushing a page down

A select with a page asks each of its units for all rows that can be part of the page
(`Query.answer`).  The units then deliver fewer rows than they have, and the merge must not show the
difference.

A source is shortened to `n` rows when it delivers at least the first `n` of what it has.  A merge
of shortened sources answers `n` reads as the merge of the whole sources does, because a source can
run dry only after `n` of its rows have come out:

* read one after the other, the first source that runs dry has delivered `n` rows itself;
* merged by their keys, the sources hold one more row in the heap than they have delivered, so
  `n - 1` rows have to be left behind it.

The heaps of both merges are equal all the time, so nothing is asked of the order of the rows.
-/

namespace Sharding

variable {W : Type} {closer : Closer W}

/-! ## Shortened sources -/

/-- The source `s'` delivers at least the first `n` rows of `s`. -/
def Source.Shortened (n : Nat) (s s' : Source) : Prop :=
  ∃ rows k, n ≤ k ∧ s.Delivers rows ∧ s' = { s with reads := (rows.take k).map .ok }

namespace Source

variable {n : Nat} {s s' : Source} {rows : List Row}

theorem Delivers.read (h : Delivers rows s) :
    ∃ found rest, s.read = (.ok found, rest) := by
  cases rows with
  | nil => exact ⟨none, s, h.read_nil⟩
  | cons row rows =>
    obtain ⟨rest, hread, -⟩ := h.read_cons
    exact ⟨some row, rest, hread⟩

theorem Shortened.delivers (h : Shortened n s s') :
    (∃ rows, Delivers rows s) ∧ ∃ rows, Delivers rows s' := by
  obtain ⟨rows, k, -, hs, rfl⟩ := h
  exact ⟨⟨rows, hs⟩, rows.take k, hs.unbroken, rfl⟩

theorem Shortened.mono {m : Nat} (h : Shortened n s s') (hmn : m ≤ n) : Shortened m s s' := by
  obtain ⟨rows, k, hk, hs⟩ := h
  exact ⟨rows, k, hmn.trans hk, hs⟩

/-- As long as rows are left to the shortened source, both sources answer alike. -/
theorem Shortened.read (h : Shortened (n + 1) s s') :
    ∃ found rest rest', s.read = (.ok found, rest) ∧ s'.read = (.ok found, rest') ∧
      Shortened n rest rest' := by
  obtain ⟨rows, k, hk, hs, rfl⟩ := h
  cases rows with
  | nil =>
    have hs' : Delivers [] { s with reads := (([] : List Row).take k).map .ok } :=
      ⟨hs.unbroken, by rw [List.take_nil]⟩
    exact ⟨none, s, _, hs.read_nil, hs'.read_nil, [], k, Nat.le_of_succ_le hk, hs, rfl⟩
  | cons row rows =>
    cases k with
    | zero => cases hk
    | succ k =>
      refine ⟨some row, { s with reads := rows.map .ok },
        { s with reads := (rows.take k).map .ok }, ?_, ?_, rows, k, Nat.le_of_succ_le_succ hk,
        ⟨hs.unbroken, rfl⟩, rfl⟩
      · rw [Source.read, hs.unbroken, hs.reads]
        rfl
      · rw [Source.read, hs.unbroken]
        rfl

theorem Shortened.close (h : Shortened n s s') (closer : Closer W) (w : W) :
    ∃ result rest rest' w', s.close closer w = (result, rest, w') ∧
      s'.close closer w = (result, rest', w') := by
  obtain ⟨rows, k, -, -, rfl⟩ := h
  unfold Source.close
  cases s.handle with
  | none => exact ⟨_, _, _, _, rfl, rfl⟩
  | some handle => exact ⟨_, _, _, _, rfl, rfl⟩

end Source

/-! ## Sources one after the other -/

theorem Concat.nextFrom_shortened {n : Nat} {pending pending' : List Source}
    (h : List.Forall₂ (Source.Shortened (n + 1)) pending pending') (closer : Closer W)
    (columns columns' : List String) (finished finished' : List Source) (w : W) :
    ∃ found c c' w', nextFrom closer columns finished pending w = (found, c, w') ∧
      nextFrom closer columns' finished' pending' w = (found, c', w') ∧
      ∀ row, found = .ok (some row) → List.Forall₂ (Source.Shortened n) c.pending c'.pending := by
  induction h generalizing finished finished' w with
  | nil => exact ⟨_, _, _, _, rfl, rfl, fun _ h => by cases h⟩
  | @cons s s' rest rest' hs hrest ih =>
    obtain ⟨found, t, t', hread, hread', ht⟩ := hs.read
    cases found with
    | some row =>
      refine ⟨.ok (some row), ⟨columns, finished, t :: rest⟩, ⟨columns', finished', t' :: rest'⟩, w,
        ?_, ?_, fun _ _ => .cons ht (hrest.imp fun _ _ hr => hr.mono (Nat.le_succ n))⟩
      · simp only [nextFrom, hread]
      · simp only [nextFrom, hread']
    | none =>
      obtain ⟨result, u, u', w', hclose, hclose'⟩ := ht.close closer w
      cases result with
      | error e =>
        refine ⟨.error e, ⟨columns, finished, u :: rest⟩, ⟨columns', finished', u' :: rest'⟩, w',
          ?_, ?_, fun _ h => by cases h⟩
        · simp only [nextFrom, hread, hclose]
        · simp only [nextFrom, hread', hclose']
      | ok _ =>
        obtain ⟨found, c, c', w'', hnext, hnext', hpending⟩ :=
          ih (finished ++ [u]) (finished' ++ [u']) w'
        refine ⟨found, c, c', w'', ?_, ?_, hpending⟩
        · simp only [nextFrom, hread, hclose, hnext]
        · simp only [nextFrom, hread', hclose', hnext']

/-- Reading shortened sources one after the other is alike for as many reads as rows are left of
each. -/
theorem alike_concat {n : Nat} {c c' : Concat}
    (h : List.Forall₂ (Source.Shortened n) c.pending c'.pending) (w : W) :
    Stream.Alike closer n (.concat c) (.concat c') w := by
  induction n generalizing c c' w with
  | zero => trivial
  | succ n ih =>
    obtain ⟨found, d, d', w', hnext, hnext', hpending⟩ := Concat.nextFrom_shortened h closer
      c.columns c'.columns c.finished c'.finished w
    refine ⟨found, .concat d, .concat d', w', ?_, ?_, fun row hrow => ih (hpending row hrow) w'⟩
    · simp only [Stream.next, Concat.next, hnext]
    · simp only [Stream.next, Concat.next, hnext']

/-! ## Sources merged by their keys -/

theorem Ordered.primeFrom_shortened {n : Nat} {keys : List SortKey} {sources sources' : List Source}
    (h : List.Forall₂ (Source.Shortened (n + 1)) sources sources') (index : Nat)
    (heap : Heap Entry) :
    ∃ heap' rest rest', primeFrom keys index heap sources = (.ok heap', rest) ∧
      primeFrom keys index heap sources' = (.ok heap', rest') ∧
      List.Forall₂ (Source.Shortened n) rest rest' := by
  induction h generalizing index heap with
  | nil => exact ⟨heap, [], [], rfl, rfl, .nil⟩
  | cons hs _ ih =>
    obtain ⟨found, t, t', hread, hread', ht⟩ := hs.read
    cases found with
    | none =>
      obtain ⟨heap', rest, rest', hprime, hprime', hrest⟩ := ih (index + 1) heap
      refine ⟨heap', t :: rest, t' :: rest', ?_, ?_, .cons ht hrest⟩
      · simp only [primeFrom, hread, hprime]
      · simp only [primeFrom, hread', hprime']
    | some row =>
      obtain ⟨heap', rest, rest', hprime, hprime', hrest⟩ :=
        ih (index + 1) (heap.push (Entry.compare keys) ⟨row, index⟩)
      refine ⟨heap', t :: rest, t' :: rest', ?_, ?_, .cons ht hrest⟩
      · simp only [primeFrom, hread, hprime]
      · simp only [primeFrom, hread', hprime']

/-- One read of both merges: the last one that matters may leave the heaps different. -/
theorem Ordered.next_shortened {n : Nat} {o o' : Ordered} (hkeys : o.keys = o'.keys)
    (hheap : o.heap = o'.heap) (h : List.Forall₂ (Source.Shortened n) o.sources o'.sources) :
    ∃ found p p', o.next = (.ok found, p) ∧ o'.next = (.ok found, p') ∧
      (found ≠ none → n ≠ 0 → p.keys = p'.keys ∧ p.heap = p'.heap ∧
        List.Forall₂ (Source.Shortened (n - 1)) p.sources p'.sources) := by
  cases hpop : o.heap.pop (Entry.compare o.keys) with
  | none =>
    refine ⟨none, o, o', ?_, ?_, fun hfound => absurd rfl hfound⟩
    · rw [Ordered.next, hpop]
    · rw [Ordered.next, ← hkeys, ← hheap, hpop]
  | some first =>
    obtain ⟨⟨row, index⟩, heap⟩ := first
    have hpop' : o'.heap.pop (Entry.compare o'.keys) = some (⟨row, index⟩, heap) := by
      rw [← hkeys, ← hheap, hpop]
    by_cases hindex : index < o.sources.length
    · obtain ⟨before, after, hsplit, hlength⟩ : ∃ before after,
          o.sources = before ++ o.sources[index] :: after ∧ before.length = index := by
        refine ⟨o.sources.take index, o.sources.drop (index + 1), ?_, ?_⟩
        · rw [← List.drop_eq_getElem_cons hindex, List.take_append_drop]
        · rw [List.length_take]
          omega
      rw [hsplit] at h
      obtain ⟨before', s', after', hsplit', hbefore, hs, hafter⟩ := exists_of_forall₂_middle h
      have hlength' : before'.length = index := by rw [← hbefore.length_eq, hlength]
      cases n with
      | zero =>
        obtain ⟨⟨rows, hdelivers⟩, rows', hdelivers'⟩ := hs.delivers
        obtain ⟨found, t, hread⟩ := hdelivers.read
        obtain ⟨found', t', hread'⟩ := hdelivers'.read
        exact ⟨some row, _, _, Ordered.next_eq hpop hsplit hlength hread,
          Ordered.next_eq hpop' hsplit' hlength' hread', fun _ hn => absurd rfl hn⟩
      | succ n =>
        obtain ⟨found, t, t', hread, hread', ht⟩ := hs.read
        have hmono : ∀ {as bs}, List.Forall₂ (Source.Shortened (n + 1)) as bs →
            List.Forall₂ (Source.Shortened n) as bs := fun h =>
          h.imp fun _ _ hr => hr.mono (Nat.le_succ n)
        refine ⟨some row, _, _, Ordered.next_eq hpop hsplit hlength hread,
          Ordered.next_eq hpop' hsplit' hlength' hread', fun _ _ => ⟨hkeys, ?_,
            List.rel_append (hmono hbefore) (.cons ht (hmono hafter))⟩⟩
        cases found with
        | none => rfl
        | some row' => rw [hkeys]
    · have hget : o.sources[index]? = none := List.getElem?_eq_none (Nat.le_of_not_lt hindex)
      have hget' : o'.sources[index]? = none :=
        List.getElem?_eq_none (by rw [← h.length_eq]; exact Nat.le_of_not_lt hindex)
      refine ⟨some row, { o with heap }, { o' with heap }, ?_, ?_, fun _ _ =>
        ⟨hkeys, rfl, h.imp fun _ _ hr => hr.mono (Nat.sub_le n 1)⟩⟩
      · rw [Ordered.next, hpop]
        simp only [hget]
      · rw [Ordered.next, hpop']
        simp only [hget']

/-- With one row of each source in the heap, the next `n + 1` reads are alike when `n` rows are left
of each. -/
theorem alike_ordered {n : Nat} {o o' : Ordered} (hkeys : o.keys = o'.keys)
    (hheap : o.heap = o'.heap)
    (h : List.Forall₂ (Source.Shortened n) o.sources o'.sources) (w : W) :
    Stream.Alike closer (n + 1) (.ordered o) (.ordered o') w := by
  induction n generalizing o o' with
  | zero =>
    obtain ⟨found, p, p', hnext, hnext', -⟩ := Ordered.next_shortened hkeys hheap h
    refine ⟨.ok found, .ordered p, .ordered p', w, ?_, ?_, fun _ _ => trivial⟩
    · simp only [Stream.next, hnext]
    · simp only [Stream.next, hnext']
  | succ n ih =>
    obtain ⟨found, p, p', hnext, hnext', hrest⟩ := Ordered.next_shortened hkeys hheap h
    refine ⟨.ok found, .ordered p, .ordered p', w, ?_, ?_, fun row hrow => ?_⟩
    · simp only [Stream.next, hnext]
    · simp only [Stream.next, hnext']
    · cases hrow
      obtain ⟨hkeys', hheap', hsources⟩ := hrest (Option.some_ne_none row) (Nat.succ_ne_zero n)
      exact ih hkeys' hheap' hsources

/-- A merge of shortened sources begins like that of the whole ones. -/
theorem exists_create_shortened {n : Nat} {columns : List String} {keys : List SortKey}
    {sources sources' : List Source} (h : List.Forall₂ (Source.Shortened n) sources sources')
    (w : W) :
    ∃ o o', Ordered.create closer columns keys sources w = (.ok o, w) ∧
      Ordered.create closer columns keys sources' w = (.ok o', w) ∧
      Stream.Alike closer n (.ordered o) (.ordered o') w := by
  cases n with
  | zero =>
    have hdelivers : ∀ {ss ss' : List Source}, List.Forall₂ (Source.Shortened 0) ss ss' →
        ∃ lists lists', List.Forall₂ Source.Delivers lists ss ∧
          List.Forall₂ Source.Delivers lists' ss' := by
      intro ss ss' h
      induction h with
      | nil => exact ⟨[], [], .nil, .nil⟩
      | cons hs _ ih =>
        obtain ⟨⟨rows, hrows⟩, rows', hrows'⟩ := hs.delivers
        obtain ⟨lists, lists', hlists, hlists'⟩ := ih
        exact ⟨rows :: lists, rows' :: lists', .cons hrows hlists, .cons hrows' hlists'⟩
    obtain ⟨lists, lists', hlists, hlists'⟩ := hdelivers h
    obtain ⟨o, hcreate, -⟩ := exists_create closer columns keys w hlists
    obtain ⟨o', hcreate', -⟩ := exists_create closer columns keys w hlists'
    exact ⟨o, o', hcreate, hcreate', trivial⟩
  | succ n =>
    obtain ⟨heap, rest, rest', hprime, hprime', hrest⟩ :=
      Ordered.primeFrom_shortened h 0 Heap.empty
    have halike : Stream.Alike closer (n + 1) (.ordered ⟨columns, keys, rest, heap⟩)
        (.ordered ⟨columns, keys, rest', heap⟩) w := by
      refine alike_ordered ?_ ?_ hrest w
      · rfl
      · rfl
    refine ⟨_, _, ?_, ?_, halike⟩
    · rw [Ordered.create, hprime]
    · rw [Ordered.create, hprime']

/-! ## What units answer -/

/-- The page of a list. -/
def Sql.Pagination.cut {α : Type} (p : Sql.Pagination) (xs : List α) : List α :=
  (xs.drop p.offset.toNat).take p.rowCount.toNat

/-- What a unit returns of its rows for the page clause that a query has on a number of targets.  A
clause that is kept is that of the query. -/
def Query.answer {α : Type} (q : Query) (targets : Nat) (rows : List α) : List α :=
  match q.pageClause targets with
  | .keep => match q.shape.page with
    | some page => page.cut rows
    | none => rows
  | .widen page => match page.stop? with
    | some stop => rows.take stop
    | none => rows
  | .drop => rows

/-- A source of the rows that a unit returns. -/
def Source.answering (q : Query) (targets : Nat) (s : Source) : Source :=
  { s with reads := q.answer targets s.reads }

/-- The query for all rows. -/
def Query.unpaged (q : Query) : Query :=
  { q with shape := { q.shape with page := none } }

/-- The rows that a caller reads from a result set that has been built, or why there are none. -/
def rowsOf (closer : Closer W) : Except Stop ResultSet × W → Except Stop (List Row)
  | (.ok r, w) => (r.readAll closer w).1.mapError .error
  | (.error e, _) => .error e

/-- The rows that a caller reads from the merge of some sources. -/
def mergedRows (closer : Closer W) (maxRows : Nat) (s : Statement) (sources : List Source) (w : W) :
    Except Stop (List Row) :=
  rowsOf closer (mergeSources closer maxRows s sources w)

variable {q : Query} {p : Sql.Pagination} {sources : List Source} {lists : List (List Row)}

theorem pageClause_of_lt (hselect : q.kind = .select) (hpage : q.shape.page = some p) {n : Nat}
    (hn : 1 < n) : q.pageClause n = if q.shape.isGrouped then .drop else .widen p := by
  simp only [Query.pageClause, hpage, hn, hselect, true_and, if_true]

/-- Units return all rows when groups are merged, or the end of the page is no number of 64 bits. -/
theorem answering_eq_self (hselect : q.kind = .select) (hpage : q.shape.page = some p) {n : Nat}
    (hn : 1 < n) (h : q.shape.isGrouped = true ∨ p.stop? = none) (s : Source) :
    s.answering q n = s := by
  rw [Source.answering, Query.answer, pageClause_of_lt hselect hpage hn]
  cases hgrouped : q.shape.isGrouped with
  | true => rfl
  | false =>
    rw [hgrouped] at h
    simp only [Bool.false_eq_true, if_false, h.resolve_left Bool.false_ne_true]

/-- Units return no fewer rows than the page and all before it. -/
theorem shortened_answering (hselect : q.kind = .select) (hpage : q.shape.page = some p) {n : Nat}
    (hn : 1 < n) {s : Source} {rows : List Row} (hs : s.Delivers rows) :
    s.Shortened (p.offset.toNat + p.rowCount.toNat) (s.answering q n) := by
  by_cases h : q.shape.isGrouped = true ∨ p.stop? = none
  · rw [answering_eq_self hselect hpage hn h]
    refine ⟨rows, max rows.length _, Nat.le_max_right _ _, hs, ?_⟩
    rw [List.take_of_length_le (Nat.le_max_left _ _), ← hs.reads]
  · simp only [not_or, Bool.not_eq_true] at h
    obtain ⟨hgrouped, hstop⟩ := h
    refine ⟨rows, p.offset.toNat + p.rowCount.toNat, Nat.le_refl _, hs, ?_⟩
    rw [Source.answering, Query.answer, pageClause_of_lt hselect hpage hn, hgrouped, hs.reads]
    unfold Sql.Pagination.stop? at hstop ⊢
    dsimp only at hstop ⊢
    split at hstop
    · rename_i hlt
      simp only [Bool.false_eq_true, if_false, if_pos hlt, List.map_take]
    · exact absurd rfl hstop

theorem forall₂_shortened (hselect : q.kind = .select) (hpage : q.shape.page = some p) {n : Nat}
    (hn : 1 < n) (h : List.Forall₂ Source.Delivers lists sources) :
    List.Forall₂ (Source.Shortened (p.offset.toNat + p.rowCount.toNat)) sources
      (sources.map (·.answering q n)) := by
  induction h with
  | nil => exact .nil
  | cons hs _ ih => exact .cons (shortened_answering hselect hpage hn hs) ih

/-! ## Plans -/

theorem agreedColumns_answering (n : Nat) (sources : List Source) :
    agreedColumns (sources.map (·.answering q n)) = agreedColumns sources := by
  cases sources with
  | nil => rfl
  | cons first rest =>
    simp only [agreedColumns, List.map_cons, List.zipIdx_map, List.find?_map]
    -- a source keeps its columns, so the same one differs from the first
    have hdiffers : ((fun x : Source × Nat => !sameColumns x.1.columns
        (first.answering q n).columns) ∘ Prod.map (Source.answering q n) id) =
          fun x : Source × Nat => !sameColumns x.1.columns first.columns := rfl
    rw [hdiffers]
    cases rest.zipIdx.find? fun x => !sameColumns x.1.columns first.columns <;> rfl

theorem planMerge_answering (maxRows n : Nat) (s : Statement) (sources : List Source) :
    planMerge maxRows s (sources.map (·.answering q n)) = planMerge maxRows s sources := by
  rw [planMerge, agreedColumns_answering]
  rfl

theorem planMerge_select (maxRows : Nat) (hselect : q.kind = .select) (sources : List Source) :
    planMerge maxRows (.query q) sources =
      (agreedColumns sources).bind fun columns =>
        (visibleWidth? q.shape columns).bind fun width =>
          (mergeKind maxRows q.shape columns width).map fun kind =>
            { columns, kind, width, page := q.shape.page } := by
  simp only [planMerge, hselect]
  rfl

theorem planMerge_unpaged (maxRows : Nat) (hselect : q.kind = .select) (sources : List Source) :
    planMerge maxRows (.query q.unpaged) sources =
      (planMerge maxRows (.query q) sources).map ({ · with page := none }) := by
  rw [planMerge_select maxRows hselect, planMerge_select maxRows (q := q.unpaged) hselect]
  cases agreedColumns sources with
  | error e => rfl
  | ok columns =>
    have hwidth : visibleWidth? q.unpaged.shape columns = visibleWidth? q.shape columns := rfl
    have hkind : ∀ width, mergeKind maxRows q.unpaged.shape columns width =
      mergeKind maxRows q.shape columns width := fun _ => rfl
    simp only [Except.bind, hwidth, hkind]
    cases visibleWidth? q.shape columns with
    | error e => rfl
    | ok width =>
      dsimp only
      cases mergeKind maxRows q.shape columns width <;> rfl

/-- Groups are merged only when the query is grouped. -/
theorem kind_ne_grouped {maxRows : Nat} {plan : MergePlan} (hselect : q.kind = .select)
    (h : planMerge maxRows (.query q) sources = .ok plan) (hgrouped : q.shape.isGrouped = false)
    (groups : GroupPlan) : plan.kind ≠ .grouped groups := by
  intro hkind
  obtain ⟨-, hmerge, -⟩ := of_planMerge_select hselect h
  rw [hkind] at hmerge
  rw [(of_mergeKind_grouped hmerge).1] at hgrouped
  cases hgrouped

/-! ## The rows that are read -/

variable {w : W}

theorem rowsOf_ofReader (strategy : MergeStrategy) (width : Option Nat) (reader : Reader) (w : W) :
    rowsOf closer (.ok (.ofReader reader strategy width), w) =
      ((ResultSet.opened strategy (cutTo width reader.columns) width reader).readAllFrom closer
        (reader.stream.bound + 1) w).1.mapError .error := rfl

theorem rowsOf_delivers {s : Stream} {rows : List Row} (h : Stream.Delivers closer s w rows)
    (strategy : MergeStrategy) (width : Option Nat) :
    rowsOf closer (.ok (.ofReader ⟨s, none⟩ strategy width), w) = .ok (rows.map (cutTo width)) := by
  rw [rowsOf_ofReader, ResultSet.readAllFrom_delivers h (Nat.le_succ_of_le h.length_le_bound)]
  rfl

/-- The page of what a stream delivers is read from it. -/
theorem rowsOf_page {s : Stream} {rows : List Row} (h : Stream.Delivers closer s w rows)
    (strategy : MergeStrategy) (width : Option Nat) (p : Sql.Pagination) :
    rowsOf closer (.ok (.ofReader ⟨s, some (.ofPage p)⟩ strategy width), w) =
      (rowsOf closer (.ok (.ofReader ⟨s, none⟩ strategy width), w)).map p.cut := by
  have hbound := h.length_le_bound
  have hlength : ((rows.drop p.offset.toNat).take p.rowCount.toNat).length ≤ s.bound + 1 := by
    rw [List.length_take, List.length_drop]
    omega
  rw [rowsOf_delivers h, rowsOf_ofReader, Window.ofPage, ResultSet.readAllFrom_page h hlength]
  simp only [Except.mapError, Except.map, Sql.Pagination.cut, List.map_take, List.map_drop]

/-- Shortened sources give the page of the whole ones, unless groups are merged. -/
theorem rowsOf_build_shortened {plan : MergePlan} {sources' : List Source}
    (hpage : plan.page = some p) (hkind : ∀ groups, plan.kind ≠ .grouped groups)
    (h : List.Forall₂ (Source.Shortened (p.offset.toNat + p.rowCount.toNat)) sources sources')
    (w : W) :
    rowsOf closer (buildMerge closer plan sources' w) =
      rowsOf closer (buildMerge closer plan sources w) := by
  unfold buildMerge
  rw [hpage]
  cases hk : plan.kind with
  | grouped groups => exact absurd hk (hkind groups)
  | concat =>
    dsimp only [Option.map_some]
    rw [rowsOf_ofReader, rowsOf_ofReader]
    exact congrArg (Except.mapError Stop.error) (ResultSet.readAllFrom_alike
      (alike_concat h w) (Nat.lt_succ_self _) (Nat.lt_succ_self _)).symm
  | ordered keys =>
    obtain ⟨o, o', hcreate, hcreate', halike⟩ := exists_create_shortened
      h w
    dsimp only [Option.map_some]
    rw [hcreate, hcreate']
    exact congrArg (Except.mapError Stop.error) (ResultSet.readAllFrom_alike
      halike (Nat.lt_succ_self _) (Nat.lt_succ_self _)).symm

/-- Merged groups are rows in memory. -/
theorem eq_ofRows_of_mergeGroups {columns : List String} {plan : GroupPlan} {s : Source} {w w' : W}
    (h : mergeGroups closer columns plan sources w = (.ok s, w')) :
    ∃ columns rows, s = .ofRows columns rows := by
  unfold mergeGroups at h
  dsimp only at h
  split at h
  · cases h
  · cases h
  · split at h
    · cases h
      exact ⟨_, _, rfl⟩
    · cases h

/-- The page of a merge is read from all of its rows. -/
theorem rowsOf_build_page (hcloser : ∀ handle w, (closer handle w).1 = .ok ()) {plan : MergePlan}
    (hpage : plan.page = some p) (h : List.Forall₂ Source.Delivers lists sources) (w : W) :
    rowsOf closer (buildMerge closer plan sources w) =
      (rowsOf closer (buildMerge closer { plan with page := none } sources w)).map p.cut := by
  unfold buildMerge
  rw [hpage]
  cases hk : plan.kind with
  | concat =>
    exact rowsOf_page (Stream.delivers_concat hcloser h plan.columns [] w) _ _ _
  | ordered keys =>
    obtain ⟨o, hcreate, hmerging⟩ := exists_create closer plan.columns keys w h
    obtain ⟨out, hdelivers, -⟩ := hmerging.delivers closer w
    dsimp only [Option.map_some, Option.map_none]
    rw [hcreate]
    exact rowsOf_page hdelivers _ _ _
  | grouped groups =>
    dsimp only [Option.map_some, Option.map_none]
    obtain ⟨merged, w', hmerged⟩ : ∃ merged w',
        mergeGroups closer plan.columns groups sources w = (merged, w') := ⟨_, _, rfl⟩
    rw [hmerged]
    cases merged with
    | error e => rfl
    | ok s =>
      obtain ⟨columns, rows, rfl⟩ := eq_ofRows_of_mergeGroups hmerged
      exact rowsOf_page (Stream.delivers_single (Source.delivers_ofRows columns rows) w') _ _ _

/-! ## The page of the caller -/

theorem mergedRows_of_lt (maxRows : Nat) (s : Statement) (h : 1 < sources.length) (w : W) :
    mergedRows closer maxRows s sources w =
      match planMerge maxRows s sources with
      | .ok plan => rowsOf closer (buildMerge closer plan sources w)
      | .error cause => .error (.error (.merge cause)) := by
  match sources, h with
  | first :: second :: rest, _ =>
    simp only [mergedRows, mergeSources, List.isEmpty_cons, Bool.false_and, Bool.false_eq_true,
      if_false]
    cases planMerge maxRows s (first :: second :: rest) <;> rfl

/-- Several units that return what their page clause asks for give the rows that they give when they
return all they have. -/
theorem mergedRows_answering (maxRows : Nat) (hselect : q.kind = .select)
    (hpage : q.shape.page = some p) (h : List.Forall₂ Source.Delivers lists sources)
    (hn : 1 < sources.length) (w : W) :
    mergedRows closer maxRows (.query q) (sources.map (·.answering q sources.length)) w =
      mergedRows closer maxRows (.query q) sources w := by
  rw [mergedRows_of_lt maxRows _ hn, mergedRows_of_lt maxRows _ (by rwa [List.length_map]),
    planMerge_answering]
  cases hplan : planMerge maxRows (.query q) sources with
  | error e => rfl
  | ok plan =>
    obtain ⟨-, -, hplanPage⟩ := of_planMerge_select hselect hplan
    cases hgrouped : q.shape.isGrouped with
    | true =>
      have hself : sources.map (·.answering q sources.length) = sources :=
        List.map_id'' (answering_eq_self hselect hpage hn (.inl hgrouped)) sources
      rw [hself]
    | false =>
      exact rowsOf_build_shortened (hplanPage.trans hpage) (kind_ne_grouped hselect hplan hgrouped)
        (forall₂_shortened hselect hpage hn h) w

/-- The rows of the page are those that the merge of all rows has at the places of the page. -/
theorem mergedRows_page (hcloser : ∀ handle w, (closer handle w).1 = .ok ()) (maxRows : Nat)
    (hselect : q.kind = .select) (hpage : q.shape.page = some p)
    (h : List.Forall₂ Source.Delivers lists sources) (hn : 1 < sources.length) (w : W) :
    mergedRows closer maxRows (.query q) sources w =
      (mergedRows closer maxRows (.query q.unpaged) sources w).map p.cut := by
  rw [mergedRows_of_lt maxRows _ hn, mergedRows_of_lt maxRows _ hn,
    planMerge_unpaged maxRows hselect]
  cases hplan : planMerge maxRows (.query q) sources with
  | error e => rfl
  | ok plan =>
    exact rowsOf_build_page hcloser ((of_planMerge_select hselect hplan).2.2.trans hpage) h w

theorem mergedRows_single (maxRows : Nat) (hselect : q.kind = .select) {s : Source}
    {rows : List Row} (hs : s.Delivers rows) (w : W) :
    mergedRows closer maxRows (.query q) [s] w = .ok rows := by
  have hdirect : mergeSources closer maxRows (.query q) [s] w =
      (.ok (.ofReader ⟨.single s, none⟩ .direct none), w) := by
    simp only [mergeSources, List.isEmpty_nil, Statement.isSelect, hselect, beq_self_eq_true,
      Bool.and_self, if_true]
  rw [mergedRows, hdirect, rowsOf_delivers (Stream.delivers_single hs w)]
  exact congrArg Except.ok (List.map_id'' (fun _ => rfl) rows)

theorem mergedRows_nil (maxRows : Nat) (s : Statement) (w : W) :
    mergedRows closer maxRows s [] w = .ok [] :=
  rowsOf_delivers (Stream.delivers_single (Source.delivers_ofRows _ []) w) _ _

/-- The only unit of a query cuts the page out by itself. -/
theorem delivers_answering_one (hpage : q.shape.page = some p) {s : Source} {rows : List Row}
    (hs : s.Delivers rows) : (s.answering q 1).Delivers (p.cut rows) := by
  have hclause : q.pageClause 1 = .keep := by
    simp [Query.pageClause, hpage]
  refine ⟨hs.unbroken, ?_⟩
  simp only [Source.answering, Query.answer, hclause, hpage, hs.reads, Sql.Pagination.cut,
    List.map_take, List.map_drop]

/-- Every unit of a select returns what its page clause asks for.  The caller then reads the page of
the rows that the merge of all rows of all units has; and reading a merge of several units that
return everything has the same outcome, also when a source cannot be closed. -/
theorem pushed_page (maxRows : Nat) (hselect : q.kind = .select) (hpage : q.shape.page = some p)
    (h : List.Forall₂ Source.Delivers lists sources) (w : W) :
    (1 < sources.length →
      mergedRows closer maxRows (.query q) (sources.map (·.answering q sources.length)) w =
        mergedRows closer maxRows (.query q) sources w) ∧
    ((∀ handle w, (closer handle w).1 = .ok ()) →
      mergedRows closer maxRows (.query q) (sources.map (·.answering q sources.length)) w =
        (mergedRows closer maxRows (.query q.unpaged) sources w).map p.cut) := by
  refine ⟨fun hn => mergedRows_answering maxRows hselect hpage h hn w, fun hcloser => ?_⟩
  by_cases hn : 1 < sources.length
  · rw [mergedRows_answering maxRows hselect hpage h hn w,
      mergedRows_page hcloser maxRows hselect hpage h hn w]
  · -- no unit, or a single one that cuts its page out by itself
    cases h with
    | nil =>
      rw [List.map_nil, mergedRows_nil, mergedRows_nil]
      simp [Except.map, Sql.Pagination.cut]
    | @cons rows s lists sources hs hrest =>
      cases hrest with
      | nil =>
        rw [List.map_singleton, List.length_singleton,
          mergedRows_single maxRows hselect (delivers_answering_one hpage hs),
          mergedRows_single maxRows (q := q.unpaged) hselect hs]
        rfl
      | cons _ _ => simp at hn

/-- Two units, the second of which returns less than it has: the page of two rows behind the first
one of the merge. -/
theorem pushed_page_of_two :
    let q : Query :=
      { kind := .select, template := ⟨"SELECT v FROM t ORDER BY v LIMIT 1, 2", []⟩, tables := ["t"],
        conditions := []
        shape := { projections := [.column "v" none], orderBy := [⟨"v", .asc, .first⟩],
                   page := some ⟨1, 2⟩ } }
    let sources : List Source := [.ofRows ["v"] [[.int32 3]],
      .ofRows ["v"] [[.int32 1], [.int32 2], [.int32 4], [.int32 5]]]
    (sources.map (·.answering q sources.length)).map (·.reads.length) = [1, 3] ∧
      mergedRows (fun _ w => (.ok (), w)) 10 (.query q)
        (sources.map (·.answering q sources.length)) () = .ok [[.int32 2], [.int32 3]] := by
  intro q sources
  refine ⟨by decide, ?_⟩
  rw [(pushed_page (q := q) (p := ⟨1, 2⟩) 10 rfl rfl
    (.cons (Source.delivers_ofRows _ _) (.cons (Source.delivers_ofRows _ _) .nil)) ()).2
    fun _ _ => rfl]
  cbv

end Sharding
