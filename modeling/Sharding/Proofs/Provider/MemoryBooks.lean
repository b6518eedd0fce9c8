import Sharding.Proofs.Handles.Books
import Sharding.Proofs.Provider.MemoryJournal

/-!
# The books of the provider in memory

The provider in memory keeps for each statement and for each cursor whether it is closed.  So the
numbers of those that are not are books on its open handles (`Memory.kept_books`).  The counts that
it keeps beside go along with them: `Memory.Opening` says of a call what it opens, in the books and
in the counts.
-/

namespace Sharding

open Act

variable {E α : Type}

/-! ## Open numbers -/

/-- The numbers that are not closed, where `closed` says for each number whether it is. -/
def openNumbers (closed : List Bool) : Multiset Nat :=
  ↑((List.range closed.length).filter fun n => closed[n]? == some false)

theorem mem_openNumbers {closed : List Bool} {n : Nat} :
    n ∈ openNumbers closed ↔ closed[n]? = some false := by
  unfold openNumbers
  rw [Multiset.mem_coe, List.mem_filter, List.mem_range, beq_iff_eq]
  exact ⟨And.right, fun h => ⟨(List.getElem?_eq_some_iff.1 h).1, h⟩⟩

theorem nodup_openNumbers (closed : List Bool) : (openNumbers closed).Nodup :=
  Multiset.coe_nodup.2 (List.nodup_range.filter _)

/-- What is opened has the next number. -/
theorem openNumbers_append (closed : List Bool) :
    openNumbers (closed ++ [false]) = {closed.length} + openNumbers closed := by
  have hfresh : closed.length ∉ openNumbers closed := fun hmem => by
    rw [mem_openNumbers, List.getElem?_eq_none (Nat.le_refl _)] at hmem
    cases hmem
  rw [Multiset.singleton_add]
  refine (Multiset.Nodup.ext (nodup_openNumbers _)
    (Multiset.nodup_cons.2 ⟨hfresh, nodup_openNumbers _⟩)).2 fun n => ?_
  rw [Multiset.mem_cons, mem_openNumbers, mem_openNumbers]
  rcases Nat.lt_trichotomy n closed.length with hlt | heq | hgt
  · rw [List.getElem?_append_left hlt]
    simp [Nat.ne_of_lt hlt]
  · rw [heq, List.getElem?_concat_length]
    simp
  · rw [List.getElem?_eq_none (by simp; omega), List.getElem?_eq_none (by omega)]
    simp [Nat.ne_of_gt hgt]

/-- What is closed is not open any more, whether or not it was. -/
theorem openNumbers_set (closed : List Bool) (n : Nat) :
    openNumbers (closed.set n true) = (openNumbers closed).erase n := by
  refine (Multiset.Nodup.ext (nodup_openNumbers _)
    ((nodup_openNumbers closed).erase n)).2 fun k => ?_
  rw [(nodup_openNumbers closed).mem_erase_iff, mem_openNumbers, mem_openNumbers]
  by_cases hk : k = n
  · subst hk
    by_cases hlt : k < closed.length
    · simp [List.getElem?_set_self hlt]
    · rw [List.getElem?_eq_none (by rw [List.length_set]; omega)]
      simp
  · rw [List.getElem?_set_ne (Ne.symm hk)]
    simp [hk]

theorem erase_openNumbers {closed : List Bool} {n : Nat} (h : closed[n]? ≠ some false) :
    (openNumbers closed).erase n = openNumbers closed :=
  Multiset.erase_of_notMem fun hmem => h (mem_openNumbers.1 hmem)

/-! ## Books -/

namespace Memory

/-- The statements and the cursors that are open in memory. -/
def books (E : Type) : Books (Memory × E) where
  statements w := openNumbers (w.1.statements.map (·.closed))
  cursors w := openNumbers w.1.cursors

/-- The counts of open statements, of open cursors and of prepared statements. -/
def counts (m : Memory) : Int × Int × Nat :=
  (m.openStatements, m.openCursors, m.prepared)

/-- The handles of `new` are opened and counted, and nothing else is. -/
structure Opened (new : Handles) (m m' : Memory) : Prop where
  statements : openNumbers (m'.statements.map (·.closed)) =
    new.1 + openNumbers (m.statements.map (·.closed))
  cursors : openNumbers m'.cursors = new.2 + openNumbers m.cursors
  openStatements : m'.openStatements = m.openStatements + new.1.card
  openCursors : m'.openCursors = m.openCursors + new.2.card
  prepared : m'.prepared = m.prepared + new.1.card

variable {m m' m'' : Memory} {new : Handles} {n : Nat}

theorem Opened.trans (h : Opened 0 m m') (h' : Opened new m' m'') : Opened new m m'' where
  statements := by rw [h'.statements, h.statements, Prod.fst_zero, zero_add]
  cursors := by rw [h'.cursors, h.cursors, Prod.snd_zero, zero_add]
  openStatements := by simpa [h.openStatements] using h'.openStatements
  openCursors := by simpa [h.openCursors] using h'.openCursors
  prepared := by simpa [h.prepared] using h'.prepared

theorem opened_nothing (hstatements : m'.statements.map (·.closed) = m.statements.map (·.closed))
    (hcursors : m'.cursors = m.cursors) (hcounts : m'.counts = m.counts) : Opened 0 m m' where
  statements := by rw [hstatements, Prod.fst_zero, zero_add]
  cursors := by rw [hcursors, Prod.snd_zero, zero_add]
  openStatements := (congrArg (·.1) hcounts).trans (add_zero m.openStatements).symm
  openCursors := (congrArg (·.2.1) hcounts).trans (add_zero m.openCursors).symm
  prepared := congrArg (·.2.2) hcounts

theorem opened_record (m : Memory) (s : MemoryStatement) (operation : Operation)
    (sets : List (List Datum)) : Opened 0 m (m.record s operation sets) :=
  opened_nothing rfl rfl rfl

/-- A statement that is changed and not closed. -/
theorem opened_setStatement {s s' : MemoryStatement} (h : m.statements[n]? = some s)
    (hclosed : s'.closed = s.closed) : Opened 0 m (m.setStatement n s') := by
  refine opened_nothing ?_ rfl rfl
  show (m.statements.set n s').map (·.closed) = _
  rw [List.map_set]
  refine List.ext_getElem? fun k => ?_
  by_cases hk : k = n
  · subst hk
    have hlt := (List.getElem?_eq_some_iff.1 h).1
    rw [List.getElem?_set_self (by rwa [List.length_map]), List.getElem?_map, h, hclosed]
    rfl
  · rw [List.getElem?_set_ne (Ne.symm hk)]

theorem opened_takeKeys (m : Memory) (shard : String) (count : UInt64) :
    Opened 0 m (m.takeKeys shard count).2 := by
  unfold takeKeys
  cases m.shard? shard <;> exact opened_nothing rfl rfl rfl

theorem opened_report (m : Memory) (s : MemoryStatement) (affected : UInt64) (nativeKeys : Bool) :
    Opened 0 m (m.report s affected nativeKeys).2 := by
  cases nativeKeys with
  | false => exact opened_nothing rfl rfl rfl
  | true => exact opened_takeKeys m s.shard affected

theorem opened_openCursor (m : Memory) (columns : List String) (rows : List Row) :
    Opened (m.openCursor columns rows).1.handles m (m.openCursor columns rows).2 where
  statements := (zero_add _).symm
  cursors := openNumbers_append m.cursors
  openStatements := (add_zero m.openStatements).symm
  openCursors := rfl
  prepared := rfl

/-! ## Calls -/

/-- A call opens what belongs to its answer, and nothing when it fails. -/
def Opening (x : Act Memory α) (opened : α → Handles) : Prop :=
  ∀ m, x.Replies m fun reply m' =>
    match reply with
    | .ok a => Opened (opened a) m m'
    | .error _ => Opened 0 m m'

theorem Opening.opens {x : Act Memory α} {opened : α → Handles} (h : Opening x opened) :
    (books E).Opens (aside x) opened := by
  intro w
  have hstep := h w.1
  have hrun : (aside x).run w = ((x.run w.1).1, (x.run w.1).2, w.2) := rfl
  unfold Act.Replies at hstep
  rw [hrun]
  rcases hx : x.run w.1 with ⟨⟨_ | _⟩ | a, m'⟩ <;> rw [hx] at hstep
  · exact ⟨hstep.statements.trans (zero_add _), hstep.cursors.trans (zero_add _)⟩
  · exact hstep
  · exact ⟨hstep.statements, hstep.cursors⟩

theorem opening_ofStep {g : Memory → Except Error α × Memory} {opened : α → Handles}
    (h : ∀ m, match (g m).1 with
      | .ok a => Opened (opened a) m (g m).2
      | .error _ => Opened 0 m (g m).2) : Opening (ofStep g) opened :=
  fun m => replies_ofStep.2 (h m)

/-- A call on a statement that has to be open. -/
theorem opening_onOpen {call : MemoryStatement → Memory → Except Error α × Memory}
    {opened : α → Handles}
    (h : ∀ s m, m.statements[n]? = some s → match (call s m).1 with
      | .ok a => Opened (opened a) m (call s m).2
      | .error _ => Opened 0 m (call s m).2) : Opening (onOpen n call) opened := by
  refine opening_ofStep fun m => ?_
  cases hs : m.statements[n]? with
  | none => exact opened_nothing rfl rfl rfl
  | some s =>
    dsimp only
    by_cases hclosed : s.closed = true
    · rw [if_pos hclosed]
      exact opened_nothing rfl rfl rfl
    · rw [if_neg hclosed]
      exact h s m hs

theorem opening_connect (shard : String) : Opening (Memory.connect shard) fun _ => 0 := by
  refine opening_ofStep fun m => ?_
  cases m.shard? shard with
  | none => exact opened_nothing rfl rfl rfl
  | some s =>
    dsimp only
    by_cases hdown : s.unavailable = true
    · rw [if_pos hdown]
      exact opened_nothing rfl rfl rfl
    · rw [if_neg hdown]
      exact opened_nothing rfl rfl rfl

theorem opening_prepare (c : Connection) (sql : String) :
    Opening (Memory.prepare c sql) Handles.statement := by
  unfold Memory.prepare
  refine opening_ofStep fun m => ?_
  by_cases hfails : (m.shard? c.shard).any (·.failsPrepare) = true
  · rw [if_pos hfails]
    exact opened_nothing rfl rfl rfl
  · rw [if_neg hfails]
    refine ⟨?_, (zero_add _).symm, rfl, (add_zero m.openCursors).symm, rfl⟩
    dsimp only
    rw [List.map_append]
    refine (openNumbers_append _).trans ?_
    rw [List.length_map]
    rfl

theorem opening_query (n : Nat) : Opening (Memory.query n) Source.handles := by
  refine opening_onOpen fun s m _ => ?_
  dsimp only
  have hrecord := opened_record m s .query [s.params]
  rcases (m.record s .query [s.params]).respond s with _ | _ | _
  · exact hrecord
  · exact hrecord.trans (opened_openCursor _ _ _)
  · exact hrecord

theorem opening_update (n : Nat) : Opening (Memory.update n) fun _ => 0 := by
  refine opening_onOpen fun s m _ => ?_
  dsimp only
  have hrecord := opened_record m s .update [s.params]
  rcases (m.record s .update [s.params]).respond s with _ | _ | _
  · exact hrecord
  · exact hrecord
  · exact hrecord.trans (opened_report _ _ _ _)

theorem opening_execute (n : Nat) : Opening (Memory.execute n) Outcome.handles := by
  refine opening_onOpen fun s m _ => ?_
  dsimp only
  have hrecord := opened_record m s .execute [s.params]
  rcases (m.record s .execute [s.params]).respond s with _ | _ | _
  · exact hrecord
  · exact hrecord.trans (opened_openCursor _ _ _)
  · exact hrecord.trans (opened_report _ _ _ _)

theorem opening_bind (n : Nat) (params : List Datum) :
    Opening (Memory.bind n params) fun _ => 0 :=
  opening_onOpen fun _ _ hs => opened_setStatement hs rfl

theorem opening_addBatch (n : Nat) : Opening (Memory.addBatch n) fun _ => 0 :=
  opening_onOpen fun _ _ hs => opened_setStatement hs rfl

theorem opening_executeBatch (n : Nat) : Opening (Memory.executeBatch n) fun _ => 0 := by
  refine opening_onOpen fun s m hs => ?_
  dsimp only
  have hempty : Opened 0 m (m.setStatement n { s with batch := [] }) := opened_setStatement hs rfl
  have hset := getElem?_setStatement hs { s with batch := [] }
  have hrecord := hempty.trans (opened_record _ { s with batch := [] } .batch s.batch)
  generalize hrecorded : (m.setStatement n { s with batch := [] }).record { s with batch := [] }
    .batch s.batch = recorded at hrecord
  replace hset : recorded.statements[n]? = some { s with batch := [] } := hrecorded ▸ hset
  rcases recorded.respond { s with batch := [] } with _ | _ | ⟨affected, nativeKeys⟩
  · exact hrecord
  · exact hrecord
  · cases nativeKeys with
    | false => exact hrecord
    | true =>
      rw [← statements_takeKeys recorded s.shard (affected * UInt64.ofNat s.batch.length)] at hset
      exact (hrecord.trans (opened_takeKeys _ _ _)).trans (opened_setStatement hset rfl)

theorem opened_batchKeys (n : Nat) (m : Memory) : Opened 0 m (Memory.batchKeys n m).2 := by
  unfold Memory.batchKeys
  cases hs : m.statements[n]? with
  | none => exact opened_nothing rfl rfl rfl
  | some s => exact opened_setStatement hs rfl

theorem closes_statement (n : Nat) (w : Memory × E) :
    (books E).statements ((beside E).close n w).2 = ((books E).statements w).erase n ∧
      (books E).cursors ((beside E).close n w).2 = (books E).cursors w := by
  show openNumbers ((closeStatement n w.1).2.statements.map (·.closed)) = _ ∧
    openNumbers (closeStatement n w.1).2.cursors = _
  unfold closeStatement
  cases hs : w.1.statements[n]? with
  | none =>
    refine ⟨(erase_openNumbers ?_).symm, rfl⟩
    rw [List.getElem?_map, hs]
    rintro ⟨⟩
  | some s =>
    dsimp only
    by_cases hclosed : s.closed = true
    · rw [if_pos hclosed]
      refine ⟨(erase_openNumbers ?_).symm, rfl⟩
      rw [List.getElem?_map, hs, Option.map_some, hclosed]
      rintro ⟨⟩
    · rw [if_neg hclosed]
      refine ⟨?_, rfl⟩
      show openNumbers ((w.1.statements.set n _).map (·.closed)) = _
      rw [List.map_set]
      exact openNumbers_set _ n

theorem closes_cursor : (books E).Closes (beside E).closeCursor := by
  intro n w
  show openNumbers ((Memory.closeCursor n w.1).2.statements.map (·.closed)) = _ ∧
    openNumbers (Memory.closeCursor n w.1).2.cursors = _
  unfold Memory.closeCursor
  by_cases hopen : w.1.cursors[n]? = some false
  · rw [if_pos hopen]
    exact ⟨rfl, openNumbers_set _ n⟩
  · rw [if_neg hopen]
    exact ⟨rfl, (erase_openNumbers hopen).symm⟩

theorem opens_query (n : Nat) : (books E).Opens ((beside E).query n) Source.handles :=
  (opening_query n).opens

theorem opens_execute (n : Nat) : (books E).Opens ((beside E).execute n) Outcome.handles :=
  (opening_execute n).opens

/-- The books follow the provider in memory. -/
theorem kept_books : (books E).Kept (beside E) where
  connect shard := (opening_connect shard).opens
  prepare c sql := (opening_prepare c sql).opens
  bind n params := (opening_bind n params).opens
  query := opens_query
  update n := (opening_update n).opens
  execute := opens_execute
  addBatch n := (opening_addBatch n).opens
  executeBatch n := (opening_executeBatch n).opens
  batchKeys n w := by
    have h := opened_batchKeys n w.1
    exact ⟨h.statements.trans (zero_add _), h.cursors.trans (zero_add _)⟩
  close := closes_statement
  closeCursor := closes_cursor

end Memory

end Sharding
