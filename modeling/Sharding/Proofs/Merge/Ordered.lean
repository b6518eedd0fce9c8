import Sharding.Proofs.Interleaving
import Sharding.Proofs.Merge.Heap
import Sharding.Proofs.Merge.Reading
import Sharding.Proofs.Merge.RowOrder

/-!
# Merging sorted sources

The state of a merge is described by the rows that are left of each source, those in the heap
included (`Merging`).  One read either finds all of them used up, or delivers the first row of one
of them (`Merging.next`); so what comes out is an interleaving of the sources, whatever the rows
are.

Where the keys are an order on the rows and every source is sorted, the row that is delivered comes
before all rows of earlier sources and not after those of later ones.  That is the first step of the
stable arrangement of the rows of all sources, in unit order.
-/

namespace Sharding

open Sorting

/-! ## The entries of the heap -/

/-- The first rows of some lists, as entries of the sources from number `index` on. -/
def headsFrom (index : Nat) : List (List Row) → List Entry
  | [] => []
  | [] :: rests => headsFrom (index + 1) rests
  | (row :: _) :: rests => ⟨row, index⟩ :: headsFrom (index + 1) rests

variable {P : Row → Prop} {keys : List SortKey} {rests before after : List (List Row)}
  {row : Row} {rest : List Row}

theorem headsFrom_append (index : Nat) (xs ys : List (List Row)) :
    headsFrom index (xs ++ ys) = headsFrom index xs ++ headsFrom (index + xs.length) ys := by
  induction xs generalizing index with
  | nil => rfl
  | cons x xs ih =>
    have hindex : index + 1 + xs.length = index + (x :: xs).length := by
      rw [List.length_cons]
      omega
    cases x with
    | nil => rw [List.cons_append, headsFrom, headsFrom, ih, hindex]
    | cons row rest => rw [List.cons_append, headsFrom, headsFrom, ih, hindex, List.cons_append]

/-- Every entry stands for the first row of the source that it names. -/
theorem exists_of_mem_headsFrom {index : Nat} {e : Entry} (h : e ∈ headsFrom index rests) :
    ∃ before rest after, rests = before ++ (e.row :: rest) :: after ∧
      e.source = index + before.length := by
  induction rests generalizing index with
  | nil => cases h
  | cons xs rests ih =>
    cases xs with
    | nil =>
      obtain ⟨before, rest, after, rfl, hsource⟩ := ih h
      refine ⟨[] :: before, rest, after, rfl, ?_⟩
      rw [hsource, List.length_cons]
      omega
    | cons row xs =>
      rcases List.mem_cons.1 h with rfl | h
      · exact ⟨[], xs, rests, rfl, rfl⟩
      · obtain ⟨before, rest, after, rfl, hsource⟩ := ih h
        refine ⟨(row :: xs) :: before, rest, after, rfl, ?_⟩
        rw [hsource, List.length_cons]
        omega

theorem row_mem_of_mem_headsFrom {index : Nat} {e : Entry} (h : e ∈ headsFrom index rests) :
    e.row ∈ rests.flatten := by
  obtain ⟨before, rest, after, rfl, -⟩ := exists_of_mem_headsFrom h
  simp

theorem eq_nil_of_headsFrom {index : Nat} (h : headsFrom index rests = []) :
    ∀ xs ∈ rests, xs = [] := by
  induction rests generalizing index with
  | nil => exact fun xs hxs => absurd hxs List.not_mem_nil
  | cons xs rests ih =>
    cases xs with
    | nil =>
      intro ys hys
      rcases List.mem_cons.1 hys with rfl | hys
      · rfl
      · exact ih h ys hys
    | cons row xs => cases h

/-- The heads of earlier sources, the one in the middle, and those of later sources. -/
theorem headsFrom_cons_middle (before after : List (List Row)) (row : Row) (rest : List Row) :
    headsFrom 0 (before ++ (row :: rest) :: after) =
      headsFrom 0 before ++ ⟨row, before.length⟩ :: headsFrom (before.length + 1) after := by
  rw [headsFrom_append, headsFrom, Nat.zero_add]

theorem headsFrom_nil_middle (before after : List (List Row)) :
    headsFrom 0 (before ++ [] :: after) =
      headsFrom 0 before ++ headsFrom (before.length + 1) after := by
  rw [headsFrom_append, headsFrom, Nat.zero_add]

theorem ordersOn_entries (h : OrdersOn P (compareRows keys)) :
    OrdersOn (fun e : Entry => P e.row) (Entry.compare keys) :=
  (h.comap Entry.row).thenBy (.of_key Entry.source fun _ _ _ _ => rfl)

/-! ## The state of a merge -/

/-- The state of a merge that has the rows `rests` of its sources left.  The first row of each is in
the heap, which is in order if the keys are an order on the rows. -/
structure Merging (P : Row → Prop) (keys : List SortKey) (rests : List (List Row))
    (o : Ordered) : Prop where
  keys_eq : o.keys = keys
  sources : List.Forall₂ Source.Delivers (rests.map List.tail) o.sources
  entries : o.heap.toList.Perm (headsFrom 0 rests)
  rows : ∀ row ∈ rests.flatten, P row
  heaped : OrdersOn (fun e : Entry => P e.row) (Entry.compare keys) →
    o.heap.Heaped (Entry.compare keys)

/-- Reading the first row of every source puts these rows into the heap. -/
theorem primeFrom_spec {lists : List (List Row)} {sources : List Source}
    (hsources : List.Forall₂ Source.Delivers lists sources) (index : Nat) (heap : Heap Entry)
    (hrows : ∀ row ∈ lists.flatten, P row) (hheap : ∀ e ∈ heap.toList, P e.row)
    (hheaped : OrdersOn (fun e : Entry => P e.row) (Entry.compare keys) →
      heap.Heaped (Entry.compare keys)) :
    ∃ heap' sources', Ordered.primeFrom keys index heap sources = (.ok heap', sources') ∧
      List.Forall₂ Source.Delivers (lists.map List.tail) sources' ∧
      heap'.toList.Perm (headsFrom index lists ++ heap.toList) ∧
      (OrdersOn (fun e : Entry => P e.row) (Entry.compare keys) →
        heap'.Heaped (Entry.compare keys)) := by
  induction hsources generalizing index heap with
  | nil => exact ⟨heap, [], rfl, .nil, .refl _, hheaped⟩
  | @cons list s lists sources hs _ ih =>
    have hrows' : ∀ row ∈ lists.flatten, P row := fun row hrow => hrows row (by
      rw [List.flatten_cons]
      exact List.mem_append_right _ hrow)
    cases list with
    | nil =>
      obtain ⟨heap', sources', hprime, hdelivers, hperm, hheaped'⟩ :=
        ih (index + 1) heap hrows' hheap hheaped
      refine ⟨heap', s :: sources', ?_, .cons hs hdelivers, hperm, hheaped'⟩
      simp only [Ordered.primeFrom, hs.read_nil, hprime]
    | cons row rest =>
      have hrow : P row := hrows row (by simp)
      obtain ⟨s', hread, hs'⟩ := hs.read_cons
      have hpush := Heap.perm_push (Entry.compare keys) heap ⟨row, index⟩
      obtain ⟨heap', sources', hprime, hdelivers, hperm, hheaped'⟩ :=
        ih (index + 1) (heap.push (Entry.compare keys) ⟨row, index⟩) hrows'
          (fun e he => by
            rcases List.mem_cons.1 (hpush.mem_iff.1 he) with rfl | he
            · exact hrow
            · exact hheap e he)
          fun ho => Heap.heaped_push ho (hheaped ho) hheap hrow
      refine ⟨heap', s' :: sources', ?_, .cons hs' hdelivers, hperm.trans ?_, hheaped'⟩
      · simp only [Ordered.primeFrom, hread, hprime]
      · rw [headsFrom]
        exact (hpush.append_left _).trans List.perm_middle

/-- What is related to a list with an element in the middle has one there as well. -/
theorem exists_of_forall₂_middle {α β : Type} {R : α → β → Prop} {before after : List α} {a : α}
    {bs : List β} (h : List.Forall₂ R (before ++ a :: after) bs) :
    ∃ before' b after', bs = before' ++ b :: after' ∧ List.Forall₂ R before before' ∧ R a b ∧
      List.Forall₂ R after after' := by
  induction before generalizing bs with
  | nil =>
    cases h with
    | cons hab hafter => exact ⟨[], _, _, rfl, .nil, hab, hafter⟩
  | cons x before ih =>
    cases h with
    | @cons _ y _ bs hxy hrest =>
      obtain ⟨before', b, after', rfl, hbefore, hab, hafter⟩ := ih hrest
      exact ⟨y :: before', b, after', rfl, .cons hxy hbefore, hab, hafter⟩

/-- A read takes the first entry out of the heap and puts in the next row of its source. -/
theorem Ordered.next_eq {o : Ordered} {heap : Heap Entry} {index : Nat}
    {earlier later : List Source} {s s' : Source} {found : Option Row}
    (hpop : o.heap.pop (Entry.compare o.keys) = some (⟨row, index⟩, heap))
    (hsources : o.sources = earlier ++ s :: later) (hindex : earlier.length = index)
    (hread : s.read = (.ok found, s')) :
    o.next = (.ok (some row),
      { o with
        sources := earlier ++ s' :: later
        heap := match found with
          | none => heap
          | some row' => heap.push (Entry.compare o.keys) ⟨row', index⟩ }) := by
  subst hindex
  have hget : o.sources[earlier.length]? = some s := by
    rw [hsources, List.getElem?_append_right (Nat.le_refl _), Nat.sub_self]
    rfl
  have hset : o.sources.set earlier.length s' = earlier ++ s' :: later := by
    rw [hsources, List.set_append_right _ _ (Nat.le_refl _), Nat.sub_self]
    rfl
  rw [Ordered.next, hpop]
  simp only [hget, hread, hset]
  cases found <;> rfl

/-- The entry that comes out of a heap of heads is one of them, and the others stay. -/
theorem exists_head_of_pop {cmp : Entry → Entry → Ordering} {heap heap' : Heap Entry}
    {first : Entry} (hentries : heap.toList.Perm (headsFrom 0 rests))
    (hpop : heap.pop cmp = some (first, heap')) :
    ∃ before rest after, rests = before ++ (first.row :: rest) :: after ∧
      first.source = before.length ∧
      heap'.toList.Perm (headsFrom 0 before ++ headsFrom (before.length + 1) after) := by
  have hperm := Heap.perm_of_pop hpop
  obtain ⟨before, rest, after, rfl, hsource⟩ := exists_of_mem_headsFrom
    (hentries.mem_iff.1 (hperm.mem_iff.2 List.mem_cons_self))
  rw [Nat.zero_add] at hsource
  refine ⟨before, rest, after, rfl, hsource, ?_⟩
  have hall := hperm.symm.trans hentries
  rw [headsFrom_cons_middle, ← hsource] at hall
  rw [← hsource]
  exact (List.perm_cons _).1 (hall.trans List.perm_middle)

/-- A read delivers the first row of a source, and that row is a first one in the order of entries,
if there is such an order. -/
theorem Merging.next {o : Ordered} (h : Merging P keys rests o) :
    ((∀ xs ∈ rests, xs = []) ∧ o.next = (.ok none, o)) ∨
    ∃ before row rest after o', rests = before ++ (row :: rest) :: after ∧
      o.next = (.ok (some row), o') ∧ Merging P keys (before ++ rest :: after) o' ∧
      (OrdersOn (fun e : Entry => P e.row) (Entry.compare keys) →
        ∀ e ∈ headsFrom 0 rests, Entry.compare keys ⟨row, before.length⟩ e ≠ .gt) := by
  cases hpop : o.heap.pop (Entry.compare o.keys) with
  | none =>
    have hnil := h.entries
    rw [(Heap.pop_eq_none _).1 hpop] at hnil
    refine .inl ⟨eq_nil_of_headsFrom hnil.symm.eq_nil, ?_⟩
    rw [Ordered.next, hpop]
  | some found =>
    obtain ⟨⟨row, index⟩, heap⟩ := found
    obtain ⟨before, rest, after, rfl, rfl, hothers⟩ := exists_head_of_pop h.entries hpop
    obtain ⟨rfl, hsources, hentries, hrows, hheaped⟩ := h
    have hheap : ∀ e ∈ o.heap.toList, P e.row := fun e he =>
      hrows e.row (row_mem_of_mem_headsFrom (hentries.mem_iff.1 he))
    have hheaped' := fun ho => Heap.heaped_of_pop ho (hheaped ho) hheap hpop
    have hrows' : ∀ r ∈ (before ++ rest :: after).flatten, P r := fun r hr => hrows r (by
      simp only [List.flatten_append, List.flatten_cons, List.mem_append, List.mem_cons] at hr ⊢
      tauto)
    rw [List.map_append, List.map_cons, List.tail_cons] at hsources
    obtain ⟨earlier, s, later, hsplit, hearlier, hs, hlater⟩ := exists_of_forall₂_middle hsources
    have hlength : earlier.length = before.length := by
      rw [← hearlier.length_eq, List.length_map]
    refine .inr ⟨before, row, rest, after, ?_⟩
    cases rest with
    | nil =>
      refine ⟨_, rfl, Ordered.next_eq hpop hsplit hlength hs.read_nil,
        ⟨rfl, ?_, ?_, hrows', hheaped'⟩,
        fun ho e he => Heap.le_of_pop ho (hheaped ho) hheap hpop e (hentries.mem_iff.2 he)⟩
      · rw [List.map_append]
        exact List.rel_append hearlier (.cons hs hlater)
      · rw [headsFrom_nil_middle]
        exact hothers
    | cons row' rest =>
      obtain ⟨s', hread, hs'⟩ := hs.read_cons
      have hrow' : P row' := hrows' row' (by simp)
      refine ⟨_, rfl, Ordered.next_eq hpop hsplit hlength hread,
        ⟨rfl, ?_, ?_, hrows', fun ho => Heap.heaped_push ho (hheaped' ho) ?_ hrow'⟩,
        fun ho e he => Heap.le_of_pop ho (hheaped ho) hheap hpop e (hentries.mem_iff.2 he)⟩
      · rw [List.map_append]
        exact List.rel_append hearlier (.cons hs' hlater)
      · rw [headsFrom_cons_middle]
        exact (Heap.perm_push _ _ _).trans ((hothers.cons _).trans List.perm_middle.symm)
      · exact fun e he =>
          hheap e ((Heap.perm_of_pop hpop).mem_iff.2 (List.mem_cons_of_mem _ he))

/-! ## The rows that come out -/

/-- The row of a first entry comes before all rows of earlier sources and not after those of later
ones, if every source is sorted. -/
theorem first_of_le_heads (ho : OrdersOn P (compareRows keys))
    (hrows : ∀ r ∈ (before ++ (row :: rest) :: after).flatten, P r)
    (hsorted : ∀ xs ∈ before ++ (row :: rest) :: after,
      xs.Pairwise fun a b => compareRows keys a b ≠ .gt)
    (hfirst : ∀ e ∈ headsFrom 0 (before ++ (row :: rest) :: after),
      Entry.compare keys ⟨row, before.length⟩ e ≠ .gt) :
    (∀ r ∈ before.flatten, compareRows keys row r = .lt) ∧
      ∀ r ∈ rest ++ after.flatten, compareRows keys row r ≠ .gt := by
  have hrow : P row := hrows row (by simp)
  -- a source begins with its head, and no row of it comes before that
  have hhead : ∀ head tail, head :: tail ∈ before ++ (row :: rest) :: after →
      P head ∧ ∀ r ∈ head :: tail, P r ∧ compareRows keys head r ≠ .gt := by
    intro head tail hmem
    have hP : ∀ r ∈ head :: tail, P r := fun r hr => hrows r (List.mem_flatten.2 ⟨_, hmem, hr⟩)
    refine ⟨hP head List.mem_cons_self, fun r hr => ⟨hP r hr, ?_⟩⟩
    rcases List.mem_cons.1 hr with rfl | hr
    · simp [ho.self_eq (hP r List.mem_cons_self)]
    · exact List.rel_of_pairwise_cons (hsorted _ hmem) hr
  refine ⟨fun r hr => ?_, fun r hr => ?_⟩
  · obtain ⟨list, hlist, hmem⟩ := List.mem_flatten.1 hr
    obtain ⟨earlier, later, rfl⟩ := List.append_of_mem hlist
    obtain ⟨head, tail, rfl⟩ := List.exists_cons_of_ne_nil (List.ne_nil_of_mem hmem)
    obtain ⟨hPhead, hmin⟩ := hhead head tail (by simp)
    -- equal keys would put the earlier source first
    have hle := hfirst ⟨head, earlier.length⟩ (by
      rw [headsFrom_cons_middle, headsFrom_cons_middle]
      simp)
    have hlater : Ord.compare (earlier ++ (head :: tail) :: later).length earlier.length = .gt :=
      Nat.compare_eq_gt.2 (by simp)
    simp only [Entry.compare, hlater] at hle
    have hlt : compareRows keys row head = .lt := by
      cases hcmp : compareRows keys row head <;> simp [hcmp] at hle ⊢
    exact ho.lt_of_lt_of_le hrow hPhead (hmin r hmem).1 hlt (hmin r hmem).2
  · rcases List.mem_append.1 hr with hr | hr
    · exact ((hhead row rest (by simp)).2 r (List.mem_cons_of_mem _ hr)).2
    · obtain ⟨list, hlist, hmem⟩ := List.mem_flatten.1 hr
      obtain ⟨earlier, later, rfl⟩ := List.append_of_mem hlist
      obtain ⟨head, tail, rfl⟩ := List.exists_cons_of_ne_nil (List.ne_nil_of_mem hmem)
      obtain ⟨hPhead, hmin⟩ := hhead head tail (by simp)
      have hle := hfirst ⟨head, before.length + 1 + earlier.length⟩ (by
        rw [headsFrom_cons_middle, headsFrom_append, headsFrom]
        simp)
      have hle : compareRows keys row head ≠ .gt := fun hgt => hle (by simp [Entry.compare, hgt])
      exact ho.trans hrow hPhead (hmin r hmem).1 hle (hmin r hmem).2

/-- A merge delivers an interleaving of the rows that are left; if the sources are sorted, it is
their stable arrangement. -/
theorem Merging.delivers {W : Type} (closer : Closer W) (w : W) {all : List Row} {o : Ordered}
    (h : Merging (· ∈ all) keys rests o) :
    ∃ out, Stream.Delivers closer (.ordered o) w out ∧ Interleaves rests out ∧
      (OrdersOn (· ∈ all) (compareRows keys) →
        (∀ xs ∈ rests, xs.Pairwise fun a b => compareRows keys a b ≠ .gt) →
        Arranged (place (compareRows keys) all) rests.flatten out) := by
  induction hn : rests.flatten.length generalizing rests o with
  | zero =>
    rcases h.next with ⟨hnil, hnext⟩ | ⟨before, row, rest, after, o', rfl, -⟩
    · refine ⟨[], .finish (by rw [Stream.next, hnext]), .finish hnil, fun _ _ => ?_⟩
      rw [List.flatten_eq_nil_iff.2 hnil]
      exact ⟨List.Pairwise.nil, .refl _⟩
    · simp at hn
  | succ n ih =>
    rcases h.next with ⟨hnil, hnext⟩ | ⟨before, row, rest, after, o', rfl, hnext, h', hfirst⟩
    · rw [List.flatten_eq_nil_iff.2 hnil] at hn
      cases hn
    · obtain ⟨out, hdelivers, hinterleaves, harranged⟩ := ih h' (by
        simp only [List.flatten_append, List.flatten_cons, List.length_append, List.length_cons]
          at hn ⊢
        omega)
      refine ⟨row :: out, .row (by rw [Stream.next, hnext]) hdelivers, hinterleaves.take, ?_⟩
      intro ho hsorted
      obtain ⟨hbefore, hafter⟩ :=
        first_of_le_heads ho h.rows hsorted (hfirst (ordersOn_entries ho))
      have hrow : row ∈ all := h.rows row (by simp)
      have hrest := harranged ho fun xs hxs => by
        rcases List.mem_append.1 hxs with hmem | hmem
        · exact hsorted xs (List.mem_append_left _ hmem)
        · rcases List.mem_cons.1 hmem with rfl | hmem
          · exact (List.pairwise_cons.1 (hsorted (row :: xs) (by simp))).2
          · exact hsorted xs (List.mem_append_right _ (List.mem_cons_of_mem _ hmem))
      rw [List.flatten_append, List.flatten_cons] at hrest
      rw [List.flatten_append, List.flatten_cons, List.cons_append]
      refine Arranged.cons_of_lowest (fun r hr => ?_) (fun r hr => ?_) hrest
      · exact place_lt ho (fun _ hr => hr) hrow (h.rows r (by simp [hr])) (hbefore r hr)
      · refine place_le ho (fun _ hr => hr) hrow (h.rows r ?_) (hafter r hr)
        rw [List.flatten_append, List.flatten_cons, List.cons_append]
        exact List.mem_append_right _ (List.mem_cons_of_mem _ hr)

/-- Building a merge reads the first row of every source, and nothing can fail. -/
theorem exists_create {W : Type} (closer : Closer W) (columns : List String) (keys : List SortKey)
    (w : W) {lists : List (List Row)} {sources : List Source}
    (hsources : List.Forall₂ Source.Delivers lists sources) :
    ∃ o, Ordered.create closer columns keys sources w = (.ok o, w) ∧
      Merging (· ∈ lists.flatten) keys lists o := by
  obtain ⟨heap, sources', hprime, hdelivers, hperm, hheaped⟩ :=
    primeFrom_spec (P := (· ∈ lists.flatten)) hsources 0 Heap.empty
      (fun _ hrow => hrow) (fun e he => absurd he List.not_mem_nil) fun _ => Heap.heaped_empty
  refine ⟨{ columns, keys, sources := sources', heap }, ?_, rfl, hdelivers, ?_, fun _ hrow => hrow,
    hheaped⟩
  · rw [Ordered.create, hprime]
  · rwa [Heap.toList_empty, List.append_nil] at hperm

/-- Sources without errors are merged into an interleaving of their rows.  If each of them is sorted
and the values of every key column can be put in order, the merge is the stable sort of the rows of
all sources in unit order. -/
theorem ordered_merges {W : Type} (closer : Closer W) (columns : List String) (keys : List SortKey)
    (w : W) {lists : List (List Row)} {sources : List Source}
    (hsources : List.Forall₂ Source.Delivers lists sources) :
    ∃ o out, Ordered.create closer columns keys sources w = (.ok o, w) ∧
      Stream.Delivers closer (.ordered o) w out ∧ Interleaves lists out ∧
      ((∀ rows ∈ lists, rows.Pairwise fun a b => compareRows keys a b ≠ .gt) →
        ComparableColumns keys lists.flatten → out = stablySorted keys lists.flatten) := by
  obtain ⟨o, hcreate, hmerging⟩ := exists_create closer columns keys w hsources
  obtain ⟨out, hdelivers, hinterleaves, harranged⟩ := hmerging.delivers closer w
  refine ⟨o, out, hcreate, hdelivers, hinterleaves, fun hsorted hcomparable => ?_⟩
  have ho := ordersOn_compareRows hcomparable
  exact (harranged ho hsorted).unique (arranged_mergeSort ho fun _ hrow => hrow)

/-- Two sources in descending order, with NULL last and one key in both of them. -/
theorem ordered_merges_descending :
    ∃ o out,
      Ordered.create (fun _ w => (.ok (), w)) ["k", "unit"] [⟨0, .desc, .last⟩]
        [.ofRows ["k", "unit"] [[.int32 2, .text "a"], [.int32 1, .text "a"]],
         .ofRows ["k", "unit"] [[.int64 2, .text "b"], [.null, .text "b"]]] () = (.ok o, ()) ∧
      Stream.Delivers (fun _ w => (.ok (), w)) (.ordered o) () out ∧
      out = [[.int32 2, .text "a"], [.int64 2, .text "b"], [.int32 1, .text "a"],
        [.null, .text "b"]] := by
  obtain ⟨o, out, hcreate, hdelivers, -, hsorted⟩ :=
    ordered_merges (fun _ w => (.ok (), w)) ["k", "unit"] [⟨0, .desc, .last⟩] ()
      (.cons (Source.delivers_ofRows ["k", "unit"] [[.int32 2, .text "a"], [.int32 1, .text "a"]])
        (.cons (Source.delivers_ofRows ["k", "unit"] [[.int64 2, .text "b"], [.null, .text "b"]])
          .nil))
  refine ⟨o, out, hcreate, hdelivers, (hsorted (by decide) ?_).trans (by cbv)⟩
  intro key hkey
  obtain rfl := List.mem_singleton.1 hkey
  exact ⟨_, Datum.TransitiveOn.integers, by decide⟩

end Sharding
