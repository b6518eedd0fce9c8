import Sharding.Proofs.Provider.Journal
import Sharding.Proofs.Provider.Memory

/-!
# The journal of the provider in memory

The provider in memory keeps a journal: its log is what has been executed, and its scripts say which
counts are reported (`Memory.kept_journal`).  The journal is one for all worlds whose scripts and
shards are as in a given memory, since no call changes those.
-/

namespace Sharding

open Act Journal

variable {E α : Type}

/-- A statement in memory, unless it is closed. -/
def MemoryStatement.state? (s : MemoryStatement) : Option StatementState :=
  if s.closed then none else some ⟨s.shard, s.sql, s.params, s.batch⟩

/-- The execution that is in the log. -/
def LogEntry.execution (e : LogEntry) : RouteUnit :=
  ⟨e.shard, e.sql, e.params⟩

namespace Memory

/-- Whether a shard is unavailable and whether it fails to prepare. -/
def outages (m : Memory) (shard : String) : Option (Bool × Bool) :=
  (m.shard? shard).map fun s => (s.unavailable, s.failsPrepare)

/-- The count that an execution reports. -/
def affected (m : Memory) (u : RouteUnit) : UInt64 :=
  match m.answer u.shard u.sql with
  | .ok (.update affected _) => affected
  | _ => 0

/-- The journal of worlds with the scripts and the outages of a memory, beside something that is
`calm`. -/
def journal (m₀ : Memory) (calm : E → Prop) : Journal (Memory × E) where
  sound w := w.1.answer = m₀.answer ∧ w.1.outages = m₀.outages ∧ calm w.2
  state? w n := w.1.statements[n]?.bind MemoryStatement.state?
  executed w := ↑(w.1.log.map LogEntry.execution)
  serves shard sql := m₀.outages shard = some (false, false) ∧
    ∃ affected keys, m₀.answer shard sql = .ok (.update affected keys)
  reports units counts := counts = units.map m₀.affected

variable {m₀ m m' : Memory} {calm : E → Prop} {n : Nat} {e : E} {w : Memory × E}

/-- At most the statement with a number differs, and `entries` are new in the log. -/
structure Adds (n : Nat) (entries : List LogEntry) (m m' : Memory) : Prop
    extends SameBut n m m' where
  outages : m'.outages = m.outages
  log : m'.log = m.log ++ entries

theorem Adds.touches {entries : List LogEntry} (h : Adds n entries m m')
    (hsound : (journal m₀ calm).sound (m, e)) :
    (journal m₀ calm).Touches n ↑(entries.map LogEntry.execution) (m, e) (m', e) where
  sound := ⟨h.answer.trans hsound.1, h.outages.trans hsound.2.1, hsound.2.2⟩
  others i hi := congrArg (Option.bind · MemoryStatement.state?) (h.others i hi)
  executed := by
    show (↑(m'.log.map LogEntry.execution) : Multiset RouteUnit) = _
    rw [h.log, List.map_append, ← Multiset.coe_add, add_comm]
    rfl

theorem Adds.trans {m'' : Memory} {entries entries' : List LogEntry} (h : Adds n entries m m')
    (h' : Adds n entries' m' m'') : Adds n (entries ++ entries') m m'' where
  toSameBut := h.toSameBut.trans h'.toSameBut
  outages := h'.outages.trans h.outages
  log := by rw [h'.log, h.log, List.append_assoc]

theorem adds_nothing (n : Nat) (m : Memory) : Adds n [] m m :=
  ⟨.of_statements n rfl rfl, rfl, (List.append_nil _).symm⟩

theorem adds_setStatement (n : Nat) (m : Memory) (s : MemoryStatement) :
    Adds n [] m (m.setStatement n s) :=
  ⟨sameBut_setStatement n m s, rfl, (List.append_nil _).symm⟩

theorem adds_takeKeys (n : Nat) (m : Memory) (shard : String) (count : UInt64) :
    Adds n [] m (m.takeKeys shard count).2 where
  toSameBut := sameBut_takeKeys n m shard count
  outages := funext (map_shard?_takeKeys (fun _ _ => rfl) m shard count)
  log := by
    rw [List.append_nil]
    unfold takeKeys
    cases m.shard? shard <;> rfl

theorem adds_record (n : Nat) (m : Memory) (s : MemoryStatement) (operation : Operation)
    (sets : List (List Datum)) :
    Adds n (sets.map fun params => ⟨s.shard, operation, s.sql, params⟩) m
      (m.record s operation sets) :=
  ⟨.of_statements n rfl rfl, rfl, rfl⟩

theorem adds_openCursor (n : Nat) (m : Memory) (columns : List String) (rows : List Row) :
    Adds n [] m (m.openCursor columns rows).2 :=
  ⟨.of_statements n rfl rfl, rfl, (List.append_nil _).symm⟩

theorem adds_report (n : Nat) (m : Memory) (s : MemoryStatement) (affected : UInt64)
    (nativeKeys : Bool) : Adds n [] m (m.report s affected nativeKeys).2 := by
  cases nativeKeys with
  | false => exact ⟨.of_statements n rfl rfl, rfl, (List.append_nil _).symm⟩
  | true => exact adds_takeKeys n m s.shard affected

/-! ## Calls on a statement -/

/-- A call on the memory, with something else beside it. -/
abbrev aside (x : Act Memory α) : Act (Memory × E) α :=
  x.zoom Prod.fst fun m w => (m, w.2)

theorem replies_aside {g : Memory → Except Error α × Memory}
    {post : Except Error α → Memory × E → Prop} :
    (aside (ofStep g)).Replies w post ↔ post (g w.1).1 ((g w.1).2, w.2) := by
  simp only [Act.Replies, aside, ofStep, zoom, run_ofRun]
  rcases g w.1 with ⟨_ | _, m⟩ <;> rfl

/-- A call on an open statement that adds to the log what the journal expects. -/
theorem calls_onOpen {call : MemoryStatement → Memory → Except Error α × Memory}
    {ran : StatementState → Multiset RouteUnit}
    {after : StatementState → α → Option StatementState → Prop}
    (h : ∀ s m, m.statements[n]? = some s → s.closed = false → m.answer = m₀.answer →
      ∃ entries, Adds n entries m (call s m).2 ∧
        match (call s m).1 with
        | .ok a => ran ⟨s.shard, s.sql, s.params, s.batch⟩ = ↑(entries.map LogEntry.execution) ∧
            after ⟨s.shard, s.sql, s.params, s.batch⟩ a
              ((call s m).2.statements[n]?.bind MemoryStatement.state?)
        | .error _ => ∀ affected keys, m₀.answer s.shard s.sql ≠ .ok (.update affected keys)) :
    (journal m₀ calm).Calls n (aside (onOpen n call)) ran after := by
  intro w state hsound hstate
  obtain ⟨m, e⟩ := w
  obtain ⟨s, hs, hopen⟩ := Option.bind_eq_some_iff.1 hstate
  unfold MemoryStatement.state? at hopen
  cases hclosed : s.closed with
  | true =>
    rw [hclosed] at hopen
    cases hopen
  | false =>
    rw [hclosed] at hopen
    cases hopen
    obtain ⟨entries, hadds, hreply⟩ := h s m hs hclosed hsound.1
    refine replies_aside.2 ?_
    simp only [hs, hclosed, Bool.false_eq_true, if_false]
    cases hcall : (call s m).1 with
    | ok a =>
      rw [hcall] at hreply
      refine ⟨?_, hreply.2⟩
      rw [hreply.1]
      exact hadds.touches hsound
    | error cause =>
      rw [hcall] at hreply
      refine ⟨⟨_, hadds.touches hsound⟩, fun hserves => ?_⟩
      obtain ⟨-, affected, keys, hanswer⟩ := hserves
      exact hreply affected keys hanswer

/-- The answer of a shard does not depend on what is bound, queued and in the log. -/
theorem respond_eq {s : MemoryStatement} (h : m.answer = m₀.answer) :
    m.respond s = m₀.answer s.shard s.sql := by
  rw [← h]
  rfl

theorem calls_bind (n : Nat) (params : List Datum) :
    (journal m₀ calm).Calls n (aside (Memory.bind n params)) (fun _ => 0) fun s _ s' =>
      s' = some { s with params } := by
  refine calls_onOpen fun s m hs hclosed hanswer => ⟨[], adds_setStatement _ _ _, rfl, ?_⟩
  rw [getElem?_setStatement hs]
  simp [MemoryStatement.state?, hclosed]

theorem calls_addBatch (n : Nat) :
    (journal m₀ calm).Calls n (aside (Memory.addBatch n)) (fun _ => 0) fun s _ s' =>
      ∃ params, s' = some { s with params, queue := s.queue ++ [s.params] } := by
  refine calls_onOpen fun s m hs hclosed hanswer => ⟨[], adds_setStatement _ _ _, rfl, [], ?_⟩
  rw [getElem?_setStatement hs]
  simp [MemoryStatement.state?, hclosed]

theorem affected_of_answer {u : RouteUnit} {count : UInt64} {keys : Bool}
    (h : m₀.answer u.shard u.sql = .ok (.update count keys)) : m₀.affected u = count := by
  unfold affected
  rw [h]

theorem calls_update (n : Nat) :
    (journal m₀ calm).Calls n (aside (Memory.update n)) (fun s => {s.execution s.params})
      fun s outcome _ =>
        (journal m₀ calm).reports [s.execution s.params] [outcome.affected] := by
  refine calls_onOpen fun s m hs hclosed hanswer => ?_
  have hrecord := adds_record n m s .update [s.params]
  have hrespond : (m.record s .update [s.params]).respond s = m₀.answer s.shard s.sql :=
    respond_eq hanswer
  dsimp only
  rw [hrespond]
  cases hreply : m₀.answer s.shard s.sql with
  | error cause => exact ⟨_, hrecord, fun _ _ h => by cases h⟩
  | ok response =>
    cases response with
    | rows columns rows => exact ⟨_, hrecord, fun _ _ h => by cases h⟩
    | update count keys =>
      refine ⟨_, hrecord.trans (adds_report n _ s count keys), rfl, ?_⟩
      have haffected : m₀.affected ⟨s.shard, s.sql, s.params⟩ = count := affected_of_answer hreply
      show [_] = [m₀.affected ⟨s.shard, s.sql, s.params⟩]
      rw [haffected]
      cases keys <;> rfl

theorem calls_execute (n : Nat) :
    (journal m₀ calm).Calls n (aside (Memory.execute n)) (fun s => {s.execution s.params})
      fun _ _ _ => True := by
  refine calls_onOpen fun s m hs hclosed hanswer => ?_
  have hrecord := adds_record n m s .execute [s.params]
  have hrespond : (m.record s .execute [s.params]).respond s = m₀.answer s.shard s.sql :=
    respond_eq hanswer
  dsimp only
  rw [hrespond]
  cases hreply : m₀.answer s.shard s.sql with
  | error cause => exact ⟨_, hrecord, fun _ _ h => by cases h⟩
  | ok response =>
    cases response with
    | rows columns rows => exact ⟨_, hrecord.trans (adds_openCursor n _ columns rows), rfl, trivial⟩
    | update count keys => exact ⟨_, hrecord.trans (adds_report n _ s count keys), rfl, trivial⟩

theorem calls_executeBatch (n : Nat) :
    (journal m₀ calm).Calls n (aside (Memory.executeBatch n)) (fun s => ↑s.queued)
      fun s counts s' => (journal m₀ calm).reports s.queued counts ∧ s' ≠ none := by
  refine calls_onOpen fun s m hs hclosed hanswer => ?_
  have hrecord := (adds_setStatement n m { s with batch := [] }).trans
    (adds_record n _ { s with batch := [] } .batch s.batch)
  have hrespond : ((m.setStatement n { s with batch := [] }).record { s with batch := [] } .batch
      s.batch).respond { s with batch := [] } = m₀.answer s.shard s.sql := respond_eq hanswer
  have hset := getElem?_setStatement hs { s with batch := [] }
  dsimp only
  rw [hrespond]
  cases hreply : m₀.answer s.shard s.sql with
  | error cause => exact ⟨_, hrecord, fun _ _ h => by cases h⟩
  | ok response =>
    cases response with
    | rows columns rows => exact ⟨_, hrecord, fun _ _ h => by cases h⟩
    | update count keys =>
      have hcounts : s.batch.map (fun _ => count) =
          (s.batch.map (StatementState.execution ⟨s.shard, s.sql, s.params, s.batch⟩)).map
            m₀.affected := by
        rw [List.map_map]
        refine List.map_congr_left fun params _ => ?_
        exact (affected_of_answer (u := ⟨s.shard, s.sql, params⟩) hreply).symm
      have hran : (s.batch.map fun params => LogEntry.execution ⟨s.shard, .batch, s.sql, params⟩) =
          StatementState.queued ⟨s.shard, s.sql, s.params, s.batch⟩ := rfl
      cases keys with
      | false =>
        refine ⟨_, hrecord, ?_, hcounts, ?_⟩
        · rw [← hran, List.nil_append, List.map_map]
          rfl
        · show Option.bind (m.setStatement n { s with batch := [] }).statements[n]? _ ≠ none
          rw [hset]
          simp [MemoryStatement.state?, hclosed]
      | true =>
        refine ⟨_, (hrecord.trans (adds_takeKeys n _ s.shard (count *
          UInt64.ofNat s.batch.length))).trans (adds_setStatement n _ _), ?_, hcounts, ?_⟩
        · rw [← hran, List.nil_append, List.append_nil, List.append_nil, List.map_map]
          rfl
        · have hrecorded : (((m.setStatement n { s with batch := [] }).record
              { s with batch := [] } .batch s.batch).takeKeys s.shard
              (count * UInt64.ofNat s.batch.length)).2.statements[n]? =
                some { s with batch := [] } := by
            rw [statements_takeKeys]
            exact hset
          show Option.bind (setStatement _ n _).statements[n]? _ ≠ none
          rw [getElem?_setStatement hrecorded]
          simp [MemoryStatement.state?, hclosed]

/-! ## The other calls -/

theorem replies_connect (shard : String) (hsound : (journal m₀ calm).sound w) :
    (aside (Memory.connect shard)).Replies w fun reply w' => (journal m₀ calm).Same w w' ∧
      match reply with
      | .ok c => c.shard = shard
      | .error _ => ∀ sql, ¬ (journal m₀ calm).serves shard sql := by
  have houtages : w.1.outages shard = m₀.outages shard := congrFun hsound.2.1 shard
  have hfails : m₀.outages shard ≠ some (false, false) →
      ∀ sql, ¬ (journal m₀ calm).serves shard sql := fun hne sql hserves => hne hserves.1
  rw [← houtages, outages] at hfails
  refine replies_aside.2 ?_
  cases hshard : w.1.shard? shard with
  | none =>
    refine ⟨⟨hsound, rfl, rfl⟩, hfails ?_⟩
    simp [hshard]
  | some s =>
    dsimp only
    split
    · rename_i hdown
      refine ⟨⟨hsound, rfl, rfl⟩, hfails ?_⟩
      simp [hshard, hdown]
    · exact ⟨⟨hsound, rfl, rfl⟩, rfl⟩

theorem replies_prepare (c : Connection) (sql : String) (hsound : (journal m₀ calm).sound w) :
    (aside (Memory.prepare c sql)).Replies w fun reply w' =>
      match reply with
      | .ok n => (journal m₀ calm).Touches n 0 w w' ∧ (journal m₀ calm).state? w n = none ∧
          (journal m₀ calm).state? w' n = some { shard := c.shard, sql }
      | .error _ => (journal m₀ calm).Same w w' ∧ ¬ (journal m₀ calm).serves c.shard sql := by
  have houtages : w.1.outages c.shard = m₀.outages c.shard := congrFun hsound.2.1 c.shard
  refine replies_aside.2 ?_
  by_cases hfails : (w.1.shard? c.shard).any (·.failsPrepare) = true
  · rw [if_pos hfails]
    refine ⟨⟨hsound, rfl, rfl⟩, fun hserves => ?_⟩
    have hup : m₀.outages c.shard = some (false, false) := hserves.1
    rw [← houtages, outages] at hup
    obtain ⟨s, hs, hflags⟩ := Option.map_eq_some_iff.1 hup
    rw [hs] at hfails
    cases hfails.symm.trans (Prod.mk.inj hflags).2
  · rw [if_neg hfails]
    refine ⟨⟨hsound, fun i hi => ?_, (zero_add _).symm⟩, ?_, ?_⟩
    · show Option.bind (w.1.statements ++ [_])[i]? _ = Option.bind w.1.statements[i]? _
      by_cases hlt : i < w.1.statements.length
      · rw [List.getElem?_append_left hlt]
      · rw [List.getElem?_eq_none (Nat.le_of_not_lt hlt), List.getElem?_eq_none]
        rw [List.length_append, List.length_singleton]
        omega
    · show Option.bind w.1.statements[w.1.statements.length]? _ = none
      rw [List.getElem?_eq_none (Nat.le_refl _)]
      rfl
    · show Option.bind (w.1.statements ++ [_])[w.1.statements.length]? _ = _
      rw [List.getElem?_concat_length]
      rfl

/-- The provider in memory keeps the journal. -/
theorem kept_journal (m₀ : Memory) (calm : E → Prop) : (journal m₀ calm).Kept (beside E) where
  connect shard w hsound := replies_connect shard hsound
  prepare c sql w hsound := replies_prepare c sql hsound
  bind := calls_bind
  update := calls_update
  execute := calls_execute
  addBatch := calls_addBatch
  executeBatch := calls_executeBatch
  batchKeys n w hsound := by
    show (journal m₀ calm).Touches n 0 w ((Memory.batchKeys n w.1).2, w.2)
    unfold Memory.batchKeys
    cases w.1.statements[n]? with
    | none => exact (adds_nothing n w.1).touches hsound
    | some s => exact (adds_setStatement n w.1 _).touches hsound
  close n w hsound := by
    show (journal m₀ calm).Touches n 0 w ((Memory.closeStatement n w.1).2, w.2)
    unfold Memory.closeStatement
    cases w.1.statements[n]? with
    | none => exact (adds_nothing n w.1).touches hsound
    | some s =>
      dsimp only
      split
      · exact (adds_nothing n w.1).touches hsound
      · have hclose := adds_setStatement n w.1 { s with closed := true }
        have hadds : Adds n [] w.1 { w.1.setStatement n { s with closed := true } with
            openStatements := w.1.openStatements - 1 } :=
          ⟨⟨hclose.others, hclose.answer⟩, hclose.outages, hclose.log⟩
        exact hadds.touches hsound
  closeCursor n w hsound := by
    show (journal m₀ calm).Same w ((Memory.closeCursor n w.1).2, w.2)
    unfold Memory.closeCursor
    split
    · exact ⟨hsound, rfl, rfl⟩
    · exact ⟨hsound, rfl, rfl⟩

end Memory

end Sharding
