import Sharding.Proofs.Merge.Answers
import Sharding.Proofs.Merge.Ordered

/-!
# Rows that failed reads lose

A merge takes the first row out of its heap before it reads on in the source of that row.  When this
read fails, the row is gone, and nothing of the source is in the heap any more, so the source is
never read again.  What is `kept` of a source are the rows before the one in front of its first
failure.

`Merges keys lists out` says that `out` is what comes out when always a first one of the first rows
of the lists is taken.  Where the keys are an order on the rows there is one such list only
(`Merges.unique`), whether or not the lists are sorted.  So a merge with failures delivers what the
merge of the kept rows delivers (`answers_kept`).
-/

namespace Sharding

open Sorting

variable {W : Type} {closer : Closer W} {P : Row → Prop} {keys : List SortKey}
  {pending : List (List (Except Error Row))} {o : Ordered}

/-! ## Rows that are kept -/

/-- The rows before the one in front of the first failure, and all rows if there is none. -/
def kept : List (Except Error Row) → List Row
  | .ok _ :: .error _ :: _ => []
  | .ok row :: rest => row :: kept rest
  | _ => []

@[simp] theorem kept_nil : kept [] = [] := rfl

@[simp] theorem kept_failure (row : Row) (e : Error) (rest : List (Except Error Row)) :
    kept (.ok row :: .error e :: rest) = [] := rfl

theorem kept_ok {row : Row} {rest : List (Except Error Row)}
    (h : ∀ e later, rest ≠ .error e :: later) : kept (.ok row :: rest) = row :: kept rest := by
  cases rest with
  | nil => rfl
  | cons answer later =>
    cases answer with
    | ok _ => rfl
    | error e => exact absurd rfl (h e later)

/-- The first row that is kept is the first row. -/
theorem kept_prefix_rowsIn (reads : List (Except Error Row)) : kept reads <+: rowsIn reads := by
  fun_induction kept reads with
  | case1 row e rest => exact List.nil_prefix
  | case2 row rest h ih =>
    rw [rowsIn_ok]
    exact (List.prefix_cons_inj row).2 ih
  | case3 reads h => exact List.nil_prefix

@[simp] theorem kept_map_ok (rows : List Row) : kept (rows.map .ok) = rows := by
  induction rows with
  | nil => rfl
  | cons row rows ih =>
    rw [List.map_cons, kept_ok, ih]
    cases rows <;> nofun

/-- All rows are kept exactly if no read fails, but for the first one. -/
theorem kept_eq_iff {reads : List (Except Error Row)} (h : ∀ e rest, reads ≠ .error e :: rest) :
    kept reads = rowsIn reads ↔ ∀ answer ∈ reads, answer.toOption.isSome := by
  fun_induction kept reads with
  | case1 row e rest => simp [Except.toOption]
  | case2 row rest hrest ih =>
    rw [rowsIn_ok, List.cons_inj_right, List.forall_mem_cons, ih fun e later => ?_]
    · simp [Except.toOption]
    · rintro rfl
      exact hrest e later rfl
  | case3 reads hok hfail =>
    cases reads with
    | nil => simp
    | cons answer rest =>
      cases answer with
      | ok row => exact absurd rfl (hfail row rest)
      | error e => exact absurd rfl (h e rest)

/-- The source with the rows that are kept, of which no read fails. -/
def Source.kept (s : Source) : Source :=
  { s with reads := (Sharding.kept s.reads).map .ok }

/-! ## What a merge delivers in order -/

/-- Always a first one of the heads is taken. -/
inductive Merges (keys : List SortKey) : List (List Row) → List Row → Prop where
  | finish {lists} (h : ∀ xs ∈ lists, xs = []) : Merges keys lists []
  | take {before row rest after out}
      (hfirst : ∀ e ∈ headsFrom 0 (before ++ (row :: rest) :: after),
        Entry.compare keys ⟨row, before.length⟩ e ≠ .gt)
      (h : Merges keys (before ++ rest :: after) out) :
      Merges keys (before ++ (row :: rest) :: after) (row :: out)

/-- The head of a list in the middle. -/
theorem mem_headsFrom_middle (before after : List (List Row)) (row : Row) (rest : List Row) :
    ⟨row, before.length⟩ ∈ headsFrom 0 (before ++ (row :: rest) :: after) := by
  rw [headsFrom_cons_middle]
  simp

/-- Where the keys are an order on the rows, there is one way to merge them. -/
theorem Merges.unique (ho : OrdersOn P (compareRows keys)) {lists : List (List Row)}
    {out out' : List Row} (hrows : ∀ row ∈ lists.flatten, P row) (h : Merges keys lists out)
    (h' : Merges keys lists out') : out = out' := by
  induction h generalizing out' with
  | finish hnil =>
    cases h' with
    | finish _ => rfl
    | @take before row rest after => exact absurd (hnil (row :: rest) (by simp)) (by simp)
  | @take before row rest after out hfirst _ ih =>
    generalize hlists : before ++ (row :: rest) :: after = lists at h'
    cases h' with
    | finish hnil =>
      subst hlists
      exact absurd (hnil (row :: rest) (by simp)) (by simp)
    | @take before' row' rest' after' out' hfirst' h' =>
      -- both heads are first, so they stand at the same place
      have hrow : P row := hrows row (by simp)
      have hrow' : P row' := hrows row' (by rw [hlists]; simp)
      have hle := hfirst ⟨row', before'.length⟩ (hlists ▸ mem_headsFrom_middle ..)
      have hge := hfirst' ⟨row, before.length⟩ (hlists ▸ mem_headsFrom_middle ..)
      have heq : Entry.compare keys ⟨row, before.length⟩ ⟨row', before'.length⟩ = .eq := by
        rw [(ordersOn_entries ho).swap (a := ⟨row, before.length⟩) (b := ⟨row', before'.length⟩)
          hrow hrow'] at hge
        cases hcmp : Entry.compare keys ⟨row, before.length⟩ ⟨row', before'.length⟩ with
        | lt => exact absurd (congrArg Ordering.swap hcmp) hge
        | eq => rfl
        | gt => exact absurd hcmp hle
      have hlength : before.length = before'.length := by
        simp only [Entry.compare, Ordering.then_eq_eq] at heq
        exact Nat.compare_eq_eq.1 heq.2
      obtain ⟨rfl, htail⟩ := List.append_inj hlists hlength
      obtain ⟨hhead, rfl⟩ := List.cons.inj htail
      obtain ⟨rfl, rfl⟩ := List.cons.inj hhead
      rw [ih (fun r hr => hrows r ?_) h']
      simp only [List.flatten_append, List.flatten_cons, List.mem_append, List.mem_cons] at hr ⊢
      tauto

/-! ## The state of a merge with failures -/

/-- A source whose reads behind the row in the heap are left; nothing is known of a source that has
no row there. -/
def Source.Pending : List (Except Error Row) → Source → Prop
  | [], _ => True
  | .ok _ :: rest, s => s.broken = none ∧ s.reads = rest
  | .error _ :: _, _ => False

/-- When less is left of one of the sources, no rows come in. -/
theorem mem_rows_middle {before after : List (List (Except Error Row))}
    {reads left : List (Except Error Row)} (h : ∀ row ∈ rowsIn left, row ∈ rowsIn reads) {row : Row}
    (hrow : row ∈ ((before ++ left :: after).map rowsIn).flatten) :
    row ∈ ((before ++ reads :: after).map rowsIn).flatten := by
  rw [List.map_append, List.map_cons, List.flatten_append, List.flatten_cons, List.mem_append,
    List.mem_append] at hrow ⊢
  exact hrow.imp_right (Or.imp_left (h row))

/-- The state of a merge that has the reads `pending` left.  They begin with the rows in the
heap. -/
structure Reading (P : Row → Prop) (keys : List SortKey) (pending : List (List (Except Error Row)))
    (o : Ordered) : Prop where
  keys_eq : o.keys = keys
  sources : List.Forall₂ Source.Pending pending o.sources
  entries : o.heap.toList.Perm (headsFrom 0 (pending.map rowsIn))
  rows : ∀ row ∈ (pending.map rowsIn).flatten, P row
  heaped : OrdersOn (fun e : Entry => P e.row) (Entry.compare keys) →
    o.heap.Heaped (Entry.compare keys)

/-- When the first row of every source can be read, these rows are in the heap. -/
theorem primeFrom_pending {sources sources' : List Source} {index : Nat} {heap heap' : Heap Entry}
    (hsources : ∀ s ∈ sources, s.broken = none)
    (hprime : Ordered.primeFrom keys index heap sources = (.ok heap', sources'))
    (hrows : ∀ row ∈ (sources.map (rowsIn ·.reads)).flatten, P row)
    (hheap : ∀ e ∈ heap.toList, P e.row)
    (hheaped : OrdersOn (fun e : Entry => P e.row) (Entry.compare keys) →
      heap.Heaped (Entry.compare keys)) :
    List.Forall₂ Source.Pending (sources.map (·.reads)) sources' ∧
      heap'.toList.Perm (headsFrom index (sources.map (rowsIn ·.reads)) ++ heap.toList) ∧
      (OrdersOn (fun e : Entry => P e.row) (Entry.compare keys) →
        heap'.Heaped (Entry.compare keys)) := by
  induction sources generalizing index heap sources' with
  | nil =>
    cases hprime
    exact ⟨.nil, .refl _, hheaped⟩
  | cons s sources ih =>
    obtain ⟨hs, hothers⟩ := List.forall_mem_cons.1 hsources
    rw [List.map_cons, List.flatten_cons] at hrows
    obtain ⟨hfirst, hlater⟩ := List.forall_mem_append.1 hrows
    obtain ⟨columns, reads, broken, handle, retains⟩ := s
    obtain rfl : broken = none := hs
    cases reads with
    | nil =>
      rcases hrest : Ordered.primeFrom keys (index + 1) heap sources with ⟨reply, rest⟩
      simp only [Ordered.primeFrom, Source.read, hrest] at hprime
      cases hprime
      obtain ⟨hpending, hperm, hheaped'⟩ := ih hothers hrest hlater hheap hheaped
      exact ⟨.cons trivial hpending, hperm, hheaped'⟩
    | cons answer reads =>
      cases answer with
      | error e => cases hprime
      | ok row =>
        have hrow : P row := hfirst row List.mem_cons_self
        have hpush := Heap.perm_push (Entry.compare keys) heap ⟨row, index⟩
        rcases hrest : Ordered.primeFrom keys (index + 1)
          (heap.push (Entry.compare keys) ⟨row, index⟩) sources with ⟨reply, rest⟩
        simp only [Ordered.primeFrom, Source.read, hrest] at hprime
        cases hprime
        obtain ⟨hpending, hperm, hheaped'⟩ := ih hothers hrest hlater
          (fun e he => by
            rcases List.mem_cons.1 (hpush.mem_iff.1 he) with rfl | he
            · exact hrow
            · exact hheap e he)
          fun ho => Heap.heaped_push ho (hheaped ho) hheap hrow
        refine ⟨.cons ⟨rfl, rfl⟩ hpending, hperm.trans ?_, hheaped'⟩
        rw [List.map_cons, rowsIn_ok, headsFrom]
        exact (hpush.append_left _).trans List.perm_middle

/-- A read that fails loses the entry that was taken out of the heap. -/
theorem Ordered.next_failure {heap : Heap Entry} {row : Row} {index : Nat}
    {earlier later : List Source} {s s' : Source} {e : Error}
    (hpop : o.heap.pop (Entry.compare o.keys) = some (⟨row, index⟩, heap))
    (hsources : o.sources = earlier ++ s :: later) (hindex : earlier.length = index)
    (hread : s.read = (.error e, s')) :
    o.next = (.error e, { o with sources := earlier ++ s' :: later, heap }) := by
  subst hindex
  have hget : o.sources[earlier.length]? = some s := by
    rw [hsources, List.getElem?_append_right (Nat.le_refl _), Nat.sub_self]
    rfl
  have hset : o.sources.set earlier.length s' = earlier ++ s' :: later := by
    rw [hsources, List.set_append_right _ _ (Nat.le_refl _), Nat.sub_self]
    rfl
  rw [Ordered.next, hpop]
  simp only [hget, hread, hset]

/-- Nothing is left of a source, or it has a row in the heap. -/
theorem nil_or_ok_of_pending {sources : List Source}
    (hsources : List.Forall₂ Source.Pending pending sources) {reads : List (Except Error Row)}
    (h : reads ∈ pending) : reads = [] ∨ ∃ row rest, reads = .ok row :: rest := by
  obtain ⟨before, after, rfl⟩ := List.append_of_mem h
  obtain ⟨-, s, -, -, -, hs, -⟩ := exists_of_forall₂_middle hsources
  rcases reads with _ | ⟨e | row, rest⟩
  · exact .inl rfl
  · exact hs.elim
  · exact .inr ⟨row, rest, rfl⟩

namespace Reading

/-- The rows in the heap are rows that are left. -/
theorem forall_heap (h : Reading P keys pending o) : ∀ e ∈ o.heap.toList, P e.row :=
  fun e he => h.rows e.row (row_mem_of_mem_headsFrom (h.entries.mem_iff.1 he))

/-- Nothing is left when the heap is empty. -/
theorem eq_nil_of_pop (h : Reading P keys pending o)
    (hpop : o.heap.pop (Entry.compare keys) = none) : ∀ reads ∈ pending, reads = [] := by
  intro reads hreads
  have hentries := h.entries
  rw [(Heap.pop_eq_none _).1 hpop] at hentries
  have hnil := eq_nil_of_headsFrom hentries.symm.eq_nil _ (List.mem_map_of_mem hreads)
  rcases nil_or_ok_of_pending h.sources hreads with rfl | ⟨row, rest, rfl⟩
  · rfl
  · cases hnil

/-- The row taken out of the heap is the first one left of a source.  As long as no other row of it
is in the heap, nothing is left of this source, whatever it is. -/
theorem of_pop (h : Reading P keys pending o) {row : Row} {index : Nat} {heap : Heap Entry}
    (hpop : o.heap.pop (Entry.compare keys) = some (⟨row, index⟩, heap)) :
    ∃ before rest after earlier s later, pending = before ++ (.ok row :: rest) :: after ∧
      before.length = index ∧ o.sources = earlier ++ s :: later ∧ earlier.length = index ∧
      Source.Pending (.ok row :: rest) s ∧
      ∀ s', Reading P keys (before ++ [] :: after)
        { o with sources := earlier ++ s' :: later, heap } := by
  obtain ⟨before', rest', after', hsplit, rfl, hothers⟩ := exists_head_of_pop h.entries hpop
  obtain ⟨before, tail, rfl, rfl, htail⟩ := List.map_eq_append_iff.1 hsplit
  obtain ⟨reads, after, rfl, hreads, rfl⟩ := List.map_eq_cons_iff.1 htail
  obtain ⟨rest, rfl⟩ : ∃ rest, reads = .ok row :: rest := by
    have hmem : reads ∈ before ++ reads :: after := by simp
    rcases nil_or_ok_of_pending h.sources hmem with rfl | ⟨row', rest, rfl⟩
    · cases hreads
    · cases hreads
      exact ⟨rest, rfl⟩
  obtain ⟨earlier, s, later, hosources, hearlier, hs, hlater⟩ :=
    exists_of_forall₂_middle h.sources
  have hlength : earlier.length = before.length := hearlier.length_eq.symm
  rw [List.length_map] at hothers ⊢
  refine ⟨before, rest, after, earlier, s, later, rfl, rfl, hosources, hlength, hs, fun s' => ?_⟩
  exact {
    keys_eq := h.keys_eq
    sources := List.rel_append hearlier (.cons trivial hlater)
    entries := by
      rw [List.map_append, List.map_cons, rowsIn_nil, headsFrom_nil_middle, List.length_map]
      exact hothers
    rows := fun r hr => h.rows r (mem_rows_middle (by simp) hr)
    heaped := fun ho => Heap.heaped_of_pop ho (h.heaped ho) h.forall_heap hpop }

/-- The next row of a source comes into the heap. -/
theorem refill {before after : List (List (Except Error Row))} {rest : List (Except Error Row)}
    {row : Row} {earlier later : List Source} {s : Source} {heap : Heap Entry}
    (h : Reading P keys (before ++ [] :: after) { o with sources := earlier ++ s :: later, heap })
    (hlength : earlier.length = before.length) (hs : Source.Pending (.ok row :: rest) s)
    (hrows : ∀ r ∈ ((before ++ (.ok row :: rest) :: after).map rowsIn).flatten, P r) :
    Reading P keys (before ++ (.ok row :: rest) :: after)
      { o with
        sources := earlier ++ s :: later
        heap := heap.push (Entry.compare keys) ⟨row, before.length⟩ } := by
  have hrow : P row := hrows row (by simp)
  have hothers := h.entries
  rw [List.map_append, List.map_cons, rowsIn_nil, headsFrom_nil_middle, List.length_map] at hothers
  obtain ⟨earlier', s', later', hsplit, hearlier, -, hlater⟩ := exists_of_forall₂_middle h.sources
  obtain ⟨rfl, htail⟩ := List.append_inj hsplit (hlength.trans hearlier.length_eq)
  obtain ⟨rfl, rfl⟩ := List.cons.inj htail
  exact {
    keys_eq := h.keys_eq
    sources := List.rel_append hearlier (.cons hs hlater)
    entries := by
      rw [List.map_append, List.map_cons, rowsIn_ok, headsFrom_cons_middle, List.length_map]
      exact (Heap.perm_push _ _ _).trans ((hothers.cons _).trans List.perm_middle.symm)
    rows := hrows
    heaped := fun ho => Heap.heaped_push ho (h.heaped ho) h.forall_heap hrow }

/-- A call takes the first row of a source.  It is delivered, unless the read behind it fails; then
nothing is left of the source. -/
theorem next (h : Reading P keys pending o) :
    ((∀ reads ∈ pending, reads = []) ∧ o.next = (.ok none, o)) ∨
    ∃ before row rest after o', pending = before ++ (.ok row :: rest) :: after ∧
      (OrdersOn (fun e : Entry => P e.row) (Entry.compare keys) →
        ∀ e ∈ headsFrom 0 (pending.map rowsIn),
          Entry.compare keys ⟨row, before.length⟩ e ≠ .gt) ∧
      ((∃ e later, rest = .error e :: later ∧ o.next = (.error e, o') ∧
          Reading P keys (before ++ [] :: after) o') ∨
        (∀ e later, rest ≠ .error e :: later) ∧ o.next = (.ok (some row), o') ∧
          Reading P keys (before ++ rest :: after) o') := by
  obtain rfl := h.keys_eq
  cases hpop : o.heap.pop (Entry.compare o.keys) with
  | none => exact .inl ⟨h.eq_nil_of_pop hpop, by rw [Ordered.next, hpop]⟩
  | some found =>
    obtain ⟨⟨row, index⟩, heap⟩ := found
    obtain ⟨before, rest, after, earlier, s, later, rfl, rfl, hosources, hlength,
      ⟨hbroken, hsreads⟩, hlost⟩ := h.of_pop hpop
    have hfirst : OrdersOn (fun e : Entry => P e.row) (Entry.compare o.keys) →
        ∀ e ∈ headsFrom 0 ((before ++ (.ok row :: rest) :: after).map rowsIn),
          Entry.compare o.keys ⟨row, before.length⟩ e ≠ .gt := fun ho e he =>
      Heap.le_of_pop ho (h.heaped ho) h.forall_heap hpop e (h.entries.mem_iff.2 he)
    refine .inr ⟨before, row, rest, after, ?_⟩
    -- what the read behind the row answers
    rcases rest with _ | ⟨e | row', rest⟩
    · have hread : s.read = (.ok none, s) := by rw [Source.read, hbroken, hsreads]
      exact ⟨_, rfl, hfirst, .inr ⟨by simp, Ordered.next_eq hpop hosources hlength hread,
        hlost s⟩⟩
    · have hread : s.read = (.error e, { s with reads := rest }) := by
        rw [Source.read, hbroken, hsreads]
      exact ⟨_, rfl, hfirst, .inl ⟨e, rest, rfl, Ordered.next_failure hpop hosources hlength hread,
        hlost _⟩⟩
    · have hread : s.read = (.ok (some row'), { s with reads := rest }) := by
        rw [Source.read, hbroken, hsreads]
      refine ⟨_, rfl, hfirst, .inr ⟨by simp, Ordered.next_eq hpop hosources hlength hread, ?_⟩⟩
      refine (hlost { s with reads := rest }).refill hlength ⟨hbroken, rfl⟩ fun r hr => ?_
      exact h.rows r (mem_rows_middle (fun _ => List.mem_cons_of_mem row) hr)

end Reading

/-! ## What comes out -/

/-- The first rows that are kept are among the first rows. -/
theorem mem_headsFrom_of_kept {index : Nat} {e : Entry}
    (h : e ∈ headsFrom index (pending.map kept)) : e ∈ headsFrom index (pending.map rowsIn) := by
  induction pending generalizing index with
  | nil => exact h
  | cons reads pending ih =>
    rw [List.map_cons] at h ⊢
    obtain ⟨lost, hlost⟩ := kept_prefix_rowsIn reads
    rw [← hlost]
    cases hkept : kept reads with
    | nil =>
      rw [hkept, headsFrom] at h
      cases lost with
      | nil => exact ih h
      | cons row lost => exact List.mem_cons_of_mem _ (ih h)
    | cons row rows =>
      rw [hkept, headsFrom] at h
      rw [List.cons_append, headsFrom]
      rcases List.mem_cons.1 h with rfl | h
      · exact List.mem_cons_self
      · exact List.mem_cons_of_mem _ (ih h)

theorem Ordered.read_whole {o' : Ordered} {found : Except Error (Option Row)}
    (h : o.next = (found, o')) (w : W) :
    Reader.next closer ⟨.ordered o, none⟩ w = (found, ⟨.ordered o', none⟩, w) := by
  simp only [Reader.next, Stream.next, h]

/-- A merge delivers an interleaving of the rows that are kept, in the order of their merge if the
keys are an order on the rows. -/
theorem Reading.answers (closer : Closer W) (w : W) (h : Reading P keys pending o) :
    ∃ answers, Reader.Answers closer ⟨.ordered o, none⟩ w answers ∧
      Interleaves (pending.map kept) (rowsIn answers) ∧
      (OrdersOn P (compareRows keys) → Merges keys (pending.map kept) (rowsIn answers)) := by
  induction hn : pending.flatten.length using Nat.strong_induction_on generalizing pending o with
  | _ n ih =>
    rcases h.next with ⟨hnil, hnext⟩ | ⟨before, row, rest, after, o', rfl, hfirst, hstep⟩
    · have hkept : ∀ xs ∈ pending.map kept, xs = [] := List.forall_mem_map.2 fun reads hreads => by
        rw [hnil reads hreads, kept_nil]
      exact ⟨[], .finish (Ordered.read_whole hnext w), .finish hkept, fun _ => .finish hkept⟩
    · rw [List.map_append, List.map_cons]
      rcases hstep with ⟨e, later, rfl, hnext, h'⟩ | ⟨hok, hnext, h'⟩
      · obtain ⟨answers, hanswers, hkept, hmerges⟩ := ih _ (by simp [← hn]; omega) h' rfl
        rw [List.map_append, List.map_cons, kept_nil] at hkept hmerges
        exact ⟨.error e :: answers, .failure (Ordered.read_whole hnext w) hanswers, hkept, hmerges⟩
      · obtain ⟨answers, hanswers, hkept, hmerges⟩ := ih _ (by simp [← hn]) h' rfl
        rw [List.map_append, List.map_cons] at hkept hmerges
        rw [kept_ok hok]
        refine ⟨.ok row :: answers, .row (Ordered.read_whole hnext w) hanswers, hkept.take,
          fun ho => ?_⟩
        refine Merges.take (fun e he => ?_) (hmerges ho)
        rw [List.length_map]
        refine hfirst (ordersOn_entries ho) e (mem_headsFrom_of_kept ?_)
        rwa [List.map_append, List.map_cons, kept_ok hok]

/-- What a merge answers whose first rows could be read: nothing is read but rows in front of which
no read failed. -/
theorem answers_ordered {columns : List String} {sources : List Source} {w w' : W}
    (hcreate : Ordered.create closer columns keys sources w = (.ok o, w'))
    (hsources : ∀ s ∈ sources, s.broken = none)
    (hrows : ∀ row ∈ (sources.map (rowsIn ·.reads)).flatten, P row) :
    w' = w ∧ (∀ s ∈ sources, ∀ e rest, s.reads ≠ .error e :: rest) ∧
      ∃ answers, Reader.Answers closer ⟨.ordered o, none⟩ w answers ∧
        Interleaves (sources.map (kept ·.reads)) (rowsIn answers) ∧
        (OrdersOn P (compareRows keys) →
          Merges keys (sources.map (kept ·.reads)) (rowsIn answers)) := by
  unfold Ordered.create at hcreate
  rcases hprime : Ordered.primeFrom keys 0 Heap.empty sources with ⟨e | heap, sources'⟩
  · rw [hprime] at hcreate
    cases hcreate
  · rw [hprime] at hcreate
    cases hcreate
    obtain ⟨hpending, hperm, hheaped⟩ := primeFrom_pending hsources hprime hrows
      (fun e he => absurd he List.not_mem_nil) fun _ => Heap.heaped_empty
    have hreading : Reading P keys (sources.map (·.reads))
        { columns, keys, sources := sources', heap } := by
      refine ⟨rfl, hpending, ?_, ?_, hheaped⟩
      · rw [List.map_map]
        rwa [Heap.toList_empty, List.append_nil] at hperm
      · rw [List.map_map]
        exact hrows
    obtain ⟨answers, hanswers, hkept, hmerges⟩ := hreading.answers closer w
    rw [List.map_map] at hkept hmerges
    refine ⟨rfl, fun s hs e rest hreads => ?_, answers, hanswers, hkept, hmerges⟩
    have hmem : .error e :: rest ∈ sources.map (·.reads) := hreads ▸ List.mem_map_of_mem hs
    rcases nil_or_ok_of_pending hpending hmem with h | ⟨_, _, h⟩ <;> cases h

/-- The merge of the rows that are kept delivers what a merge with failures delivers, if the keys
are an order on the rows. -/
theorem answers_kept {columns : List String} {sources : List Source} {w w' : W}
    (hcreate : Ordered.create closer columns keys sources w = (.ok o, w'))
    (hsources : ∀ s ∈ sources, s.broken = none)
    (hcomparable : ComparableColumns keys (sources.map (rowsIn ·.reads)).flatten)
    {answers : List (Except Error Row)}
    (h : Reader.Answers closer ⟨.ordered o, none⟩ w' answers) :
    ∃ o' answers', Ordered.create closer columns keys (sources.map Source.kept) w = (.ok o', w) ∧
      Reader.Answers closer ⟨.ordered o', none⟩ w answers' ∧ rowsIn answers = rowsIn answers' := by
  have ho := ordersOn_compareRows hcomparable
  obtain ⟨rfl, -, answers₁, hanswers, -, hmerges⟩ :=
    answers_ordered hcreate hsources fun _ hrow => hrow
  obtain rfl := h.unique hanswers
  -- the kept rows are all rows of the kept sources, and some of all rows
  have hrowsIn : (sources.map Source.kept).map (rowsIn ·.reads) = sources.map (kept ·.reads) := by
    rw [List.map_map]
    exact List.map_congr_left fun s _ => rowsIn_map_ok _
  have hkept : (sources.map Source.kept).map (kept ·.reads) = sources.map (kept ·.reads) := by
    rw [List.map_map]
    exact List.map_congr_left fun s _ => kept_map_ok _
  have hsub : ∀ row ∈ (sources.map (kept ·.reads)).flatten,
      row ∈ (sources.map (rowsIn ·.reads)).flatten := by
    intro row hrow
    rw [← List.flatMap_def, List.mem_flatMap] at hrow ⊢
    obtain ⟨s, hs, hrow⟩ := hrow
    exact ⟨s, hs, (kept_prefix_rowsIn s.reads).subset hrow⟩
  have hdelivers : List.Forall₂ Source.Delivers (sources.map (kept ·.reads))
      (sources.map Source.kept) := by
    rw [List.forall₂_map_left_iff, List.forall₂_map_right_iff, List.forall₂_same]
    exact fun s hs => ⟨hsources s hs, rfl⟩
  obtain ⟨o', hcreate', -⟩ := exists_create closer columns keys w' hdelivers
  obtain ⟨-, -, answers', hanswers', -, hmerges'⟩ := answers_ordered hcreate'
    (List.forall_mem_map.2 hsources) (hrowsIn ▸ hsub)
  rw [hkept] at hmerges'
  exact ⟨o', answers', hcreate', hanswers', Merges.unique ho hsub (hmerges ho) (hmerges' ho)⟩

/-- What failed reads cost, when the reader is read on.  Sources read one after the other deliver
the same rows as if none failed.  A merge loses, of each source of which a later read than the first
one fails, the row in front of that and everything behind; the rows that are kept come in the order
of their merge.  And a page counts the failures of its stream like rows, so without a failure up to
its end it is the page of the rows. -/
theorem rows_after_failed_reads (hcloser : ∀ handle w, (closer handle w).1 = .ok ())
    (columns : List String) (keys : List SortKey) {sources : List Source}
    (hsources : ∀ s ∈ sources, s.broken = none) (w : W) :
    (∃ answers healed, Reader.Answers closer ⟨.concat ⟨columns, [], sources⟩, none⟩ w answers ∧
      Reader.Answers closer ⟨.concat ⟨columns, [], sources.map Source.healed⟩, none⟩ w healed ∧
      rowsIn answers = rowsIn healed) ∧
    (∀ o w', Ordered.create closer columns keys sources w = (.ok o, w') →
      ∃ answers, Reader.Answers closer ⟨.ordered o, none⟩ w' answers ∧
        Interleaves (sources.map (kept ·.reads)) (rowsIn answers) ∧
        (∀ s ∈ sources, kept s.reads <+: rowsIn s.reads ∧
          (kept s.reads = rowsIn s.reads ↔ ∀ answer ∈ s.reads, answer.toOption.isSome)) ∧
        (ComparableColumns keys (sources.map (rowsIn ·.reads)).flatten → ∃ o' answers',
          Ordered.create closer columns keys (sources.map Source.kept) w = (.ok o', w) ∧
          Reader.Answers closer ⟨.ordered o', none⟩ w answers' ∧
          rowsIn answers = rowsIn answers')) ∧
    ∀ s answers, Reader.Answers closer ⟨s, none⟩ w answers → ∀ skip take,
      Reader.Answers closer ⟨s, some ⟨skip, take⟩⟩ w (Window.cut ⟨skip, take⟩ answers) ∧
        ((∀ answer ∈ answers.take (skip + take), answer.toOption.isSome) →
          rowsIn (Window.cut ⟨skip, take⟩ answers) = ((rowsIn answers).drop skip).take take) := by
  refine ⟨?_, ?_, ?_⟩
  · have hhealed : ∀ s ∈ sources.map Source.healed, s.broken = none :=
      List.forall_mem_map.2 hsources
    exact ⟨_, _, Reader.answers_concat hcloser columns hsources [] w,
      Reader.answers_concat hcloser columns hhealed [] w, (rowsIn_flatMap_healed sources).symm⟩
  · intro o w' hcreate
    obtain ⟨rfl, hheads, answers, hanswers, hkept, -⟩ :=
      answers_ordered hcreate hsources fun _ hrow => hrow
    refine ⟨answers, hanswers, hkept, fun s hs => ⟨kept_prefix_rowsIn s.reads, ?_⟩,
      fun hcomparable => ?_⟩
    · exact kept_eq_iff (hheads s hs)
    · exact answers_kept hcreate hsources hcomparable hanswers
  · intro s answers h skip take
    exact ⟨h.page skip take, rowsIn_cut_of_rows⟩

/-- Two sources, of which the second read of the first one fails. -/
def failingOnce : List Source :=
  [{ columns := ["id"]
     reads := [.ok [.int64 1], .error (.connection "cursor" "x"), .ok [.int64 3]] },
    .ofRows ["id"] [[.int64 2]]]

/-- They are closed without failure. -/
def closesAll : Closer Unit := fun _ w => (.ok (), w)

/-- Of the first source nothing is kept. -/
theorem rows_after_failed_reads_once : ∃ o answers,
    Ordered.create closesAll ["id"] [⟨0, .asc, .first⟩] failingOnce () = (.ok o, ()) ∧
      Reader.Answers closesAll ⟨.ordered o, none⟩ () answers ∧
      Interleaves [[], [[.int64 2]]] (rowsIn answers) := by
  have hcloser : ∀ handle w, (closesAll handle w).1 = .ok () := fun _ _ => rfl
  have hsources : ∀ s ∈ failingOnce, s.broken = none := by simp [failingOnce, Source.ofRows]
  obtain ⟨o, hcreate⟩ : ∃ o, Ordered.create closesAll ["id"] [⟨0, .asc, .first⟩] failingOnce () =
      (.ok o, ()) := ⟨_, rfl⟩
  obtain ⟨-, hmerge, -⟩ :=
    rows_after_failed_reads hcloser ["id"] [⟨0, .asc, .first⟩] hsources ()
  obtain ⟨answers, hanswers, hkept, -⟩ := hmerge o () hcreate
  exact ⟨o, answers, hcreate, hanswers, hkept⟩

/-- A source whose first read fails. -/
def failingFirst : Source where
  columns := ["id"]
  reads := [.error (.connection "cursor" "x"), .ok [.int64 1]]

/-- The merge of the two sources delivers the row 2 only, where 1, 2 and 3 are delivered if no read
fails.  And a page of one row of a source whose first read fails has no row at all. -/
theorem failed_read_loses_rows :
    (∃ o o', Ordered.create closesAll ["id"] [⟨0, .asc, .first⟩] failingOnce () = (.ok o, ()) ∧
      Ordered.create closesAll ["id"] [⟨0, .asc, .first⟩] (failingOnce.map Source.healed) () =
        (.ok o', ()) ∧
      Reader.Answers closesAll ⟨.ordered o, none⟩ ()
        [.error (.connection "cursor" "x"), .ok [.int64 2]] ∧
      Reader.Answers closesAll ⟨.ordered o', none⟩ ()
        [.ok [.int64 1], .ok [.int64 2], .ok [.int64 3]]) ∧
    Reader.Answers closesAll ⟨.concat ⟨["id"], [], [failingFirst]⟩, some ⟨0, 1⟩⟩ ()
      [.error (.connection "cursor" "x")] ∧
    Reader.Answers closesAll ⟨.concat ⟨["id"], [], [failingFirst.healed]⟩, some ⟨0, 1⟩⟩ ()
      [.ok [.int64 1]] := by
  refine ⟨⟨_, _, rfl, rfl, ?_, ?_⟩, ?_, ?_⟩
  · exact .failure rfl (.row rfl (.finish rfl))
  · exact .row rfl (.row rfl (.row rfl (.finish rfl)))
  · exact .failure rfl (.finish rfl)
  · exact .row rfl (.finish rfl)

end Sharding
