import Sharding.Proofs.Handles.Session

/-!
# No handle leaks

Every call keeps the handles of its session, and so does every run of calls.  The phase tells what a
session has, so without a query that is completed nothing is open (`no_handle_leaks`).

The books that this takes are there for every provider whose calls answer: `Provider.recorded` keeps
a ledger beside the world.
-/

namespace Sharding

open Act

variable {W α : Type} {b : Books W} {l : LogicalStatement W} {s : Session} {w : W}

theorem groupHandles_count (groups : List ExecutionGroup) :
    (groupHandles groups).1.card = (groups.flatMap (·.units)).length ∧
      (groupHandles groups).2 = 0 := by
  rw [groupHandles]
  generalize groups.flatMap (·.units) = units
  induction units with
  | nil => exact ⟨rfl, rfl⟩
  | cons u units ih =>
    rw [List.map_cons, List.sum_cons, Prod.fst_add, Prod.snd_add, Multiset.card_add, ih.1, ih.2,
      List.length_cons, add_comm]
    exact ⟨rfl, rfl⟩

theorem ResultSet.statements_handles (r : ResultSet) : r.handles.1 = 0 := by
  unfold handles
  split
  · rfl
  · exact Source.statements_allHandles _

/-- The statements that a session has are as many as it says. -/
theorem Session.card_handles (s : Session) : s.handles.1.card = s.statementCount := by
  have hrows : s.rowHandles.1 = 0 := by
    unfold rowHandles
    split
    · rfl
    · exact ResultSet.statements_handles _
  show (s.executor.handles.1 + (s.batch.handles.1 + s.rowHandles.1)).card = _
  rw [hrows, add_zero, Multiset.card_add, StatementExecutor.handles, BatchExecutor.handles,
    (groupHandles_count _).1, (groupHandles_count _).1]
  rfl

/-- Without a result set a session has no cursors. -/
theorem Session.cursors_handles (h : s.resultSet = none) : s.handles.2 = 0 := by
  have hrows : s.rowHandles = 0 := by rw [rowHandles, h]
  show s.executor.handles.2 + (s.batch.handles.2 + s.rowHandles.2) = 0
  rw [hrows, StatementExecutor.handles, BatchExecutor.handles, (groupHandles_count _).2,
    (groupHandles_count _).2]
  rfl

/-- After every run of calls, whatever they answered, the open statements are as many as the session
says.  Without a query that is completed, no statement is open, and no cursor. -/
theorem no_handle_leaks {history : History} {w₀ : W} (hl : b.Follows l)
    (hnew : b.statements w₀ = 0 ∧ b.cursors w₀ = 0) (h : Runs l history ({}, w₀) (s, w)) :
    (b.statements w).card = s.statementCount ∧
      (s.phase ≠ .queryCompleted → b.statements w = 0 ∧ b.cursors w = 0) := by
  have hhas : b.Has (s.handles + 0) w := by
    refine h.induct (motive := fun _ p => b.Has (p.1.handles + 0) p.2) ?_ fun _ p request hp => ?_
    · exact ⟨hnew.1, hnew.2.le⟩
    · exact LogicalStatement.keeps_iff.1 (LogicalStatement.keeps_perform hl request) _ _ _ hp
  obtain ⟨hstatements, hcursors⟩ := hhas
  rw [add_zero] at hstatements hcursors
  have hcard : (b.statements w).card = s.statementCount := by rw [hstatements, s.card_handles]
  refine ⟨hcard, fun hphase => ?_⟩
  have hsound := (session_sound h).1
  have hrows : s.resultSet = none := by
    by_contra hrows
    exact hphase (hsound.rows hrows)
  have hexecutor : ¬ 0 < s.executor.statementCount := fun hheld => hphase (hsound.held hheld)
  have hbatch := hsound.released
  refine ⟨?_, ?_⟩
  · rw [← Multiset.card_eq_zero, hcard, Session.statementCount]
    omega
  · rw [Session.cursors_handles hrows] at hcursors
    exact Multiset.le_zero.1 hcursors

/-! ## Recorded providers -/

/-- The action does not crash. -/
def Act.Answers (x : Act W α) : Prop :=
  ∀ w, (x.run w).1 ≠ .error .crash

/-- The calls of the provider answer, with an error or without one. -/
structure Provider.Answers (p : Provider W) : Prop where
  connect : ∀ shard, (p.connect shard).Answers
  prepare : ∀ c sql, (p.prepare c sql).Answers
  bind : ∀ n params, (p.bind n params).Answers
  query : ∀ n, (p.query n).Answers
  update : ∀ n, (p.update n).Answers
  execute : ∀ n, (p.execute n).Answers
  addBatch : ∀ n, (p.addBatch n).Answers
  executeBatch : ∀ n, (p.executeBatch n).Answers

/-- An action that records what it opens in a ledger beside its world. -/
def Act.recorded (x : Act W α) (opened : α → Handles) : Act (W × Handles) α :=
  ofRun fun (w, m) =>
    match x.run w with
    | (.ok a, w) => (.ok a, w, opened a + m)
    | (.error stop, w) => (.error stop, w, m)

/-- A provider that keeps a ledger beside its world. -/
def Provider.recorded (p : Provider W) : Provider (W × Handles) where
  connect shard := (p.connect shard).recorded fun _ => 0
  prepare c sql := (p.prepare c sql).recorded Handles.statement
  bind n params := (p.bind n params).recorded fun _ => 0
  query n := (p.query n).recorded Source.handles
  update n := (p.update n).recorded fun _ => 0
  execute n := (p.execute n).recorded Outcome.handles
  addBatch n := (p.addBatch n).recorded fun _ => 0
  executeBatch n := (p.executeBatch n).recorded fun _ => 0
  batchKeys n q := ((p.batchKeys n q.1).1, (p.batchKeys n q.1).2, q.2)
  close n q := ((p.close n q.1).1, (p.close n q.1).2, q.2.1.erase n, q.2.2)
  closeCursor n q := ((p.closeCursor n q.1).1, (p.closeCursor n q.1).2, q.2.1, q.2.2.erase n)

/-- The same statement over the recorded provider. -/
def LogicalStatement.recorded (l : LogicalStatement W) : LogicalStatement (W × Handles) where
  statement := l.statement
  router :=
    { rule := l.router.rule
      keys := ⟨fun generator => (l.router.keys.draw generator).zoom Prod.fst fun w q => (w, q.2)⟩ }
  dispatcher :=
    { provider := l.dispatcher.provider.recorded
      token :=
        { isSet := fun q => l.dispatcher.token.isSet q.1
          put := fun set q => (l.dispatcher.token.put set q.1, q.2)
          isSet_put := fun set q => l.dispatcher.token.isSet_put set q.1 }
      workers := l.dispatcher.workers
      connections := l.dispatcher.connections
      turns := fun q => l.dispatcher.turns q.1 }
  maxRows := l.maxRows
  accumulate := l.accumulate
  returnsKeys := l.returnsKeys

/-- The ledger beside a world. -/
def Books.ledger : Books (W × Handles) where
  statements q := q.2.1
  cursors q := q.2.2

theorem Books.opens_recorded {x : Act W α} (hx : x.Answers) (opened : α → Handles) :
    ledger.Opens (x.recorded opened) opened := by
  rintro ⟨w, m⟩
  have hanswers := hx w
  rw [Act.recorded, run_ofRun]
  dsimp only
  rcases hrun : x.run w with ⟨⟨e | _⟩ | a, w'⟩ <;> rw [hrun] at hanswers
  · exact ⟨rfl, rfl⟩
  · exact (hanswers rfl).elim
  · exact ⟨rfl, rfl⟩

/-- Every provider whose calls answer can be recorded, and the ledger follows all that a logical
statement does. -/
theorem follows_recorded (h : l.dispatcher.provider.Answers) : Books.ledger.Follows l.recorded where
  provider :=
    { connect := fun _ => Books.opens_recorded (h.connect _) _
      prepare := fun _ _ => Books.opens_recorded (h.prepare _ _) _
      bind := fun _ _ => Books.opens_recorded (h.bind _ _) _
      query := fun _ => Books.opens_recorded (h.query _) _
      update := fun _ => Books.opens_recorded (h.update _) _
      execute := fun _ => Books.opens_recorded (h.execute _) _
      addBatch := fun _ => Books.opens_recorded (h.addBatch _) _
      executeBatch := fun _ => Books.opens_recorded (h.executeBatch _) _
      batchKeys := fun _ _ => ⟨rfl, rfl⟩
      close := fun _ _ => ⟨rfl, rfl⟩
      closeCursor := fun _ _ => ⟨rfl, rfl⟩ }
  token _ _ := ⟨rfl, rfl⟩
  keys _ _ := ⟨rfl, rfl⟩

theorem answers_ofStep (g : W → Except Error α × W) : (ofStep g).Answers := by
  intro w
  rw [ofStep, run_ofRun]
  rcases g w with ⟨_ | _, w'⟩ <;> rintro ⟨⟩

theorem Act.Answers.zoom {S : Type} {x : Act W α} (h : x.Answers) (part : S → W)
    (put : W → S → S) : (x.zoom part put).Answers :=
  fun s => h (part s)

theorem answers_statusUpdate : statusUpdate.dispatcher.provider.Answers where
  connect _ := (answers_ofStep _).zoom _ _
  prepare _ _ := (answers_ofStep _).zoom _ _
  bind _ _ := (answers_ofStep _).zoom _ _
  query _ := (answers_ofStep _).zoom _ _
  update _ := (answers_ofStep _).zoom _ _
  execute _ := (answers_ofStep _).zoom _ _
  addBatch _ := (answers_ofStep _).zoom _ _
  executeBatch _ := (answers_ofStep _).zoom _ _

/-- Two shards are updated, and nothing of it stays open. -/
theorem no_handle_leaks_update :
    ∃ history s w, Runs statusUpdate.recorded history ({}, (twoShards, 0)) (s, w) ∧
      history = [(.setParameters [.text "paid"], .ok .done), (.executeUpdate, .ok (.count 7))] ∧
      w.2 = 0 := by
  have h := runs_play statusUpdate.recorded [.setParameters [.text "paid"], .executeUpdate]
    ({}, (twoShards, 0))
  generalize hplay : statusUpdate.recorded.play _ _ = run at h
  have hrun : (run.1, run.2.1.phase) =
      ([(.setParameters [.text "paid"], .ok .done), (.executeUpdate, .ok (.count 7))],
        .updateCompleted) := by
    rw [← hplay]
    cbv
  obtain ⟨hhistory, hphase⟩ := Prod.mk.inj hrun
  refine ⟨_, _, _, h, hhistory, ?_⟩
  have hclosed := (no_handle_leaks (follows_recorded answers_statusUpdate) ⟨rfl, rfl⟩ h).2
    (by rw [hphase]; rintro ⟨⟩)
  exact Prod.ext hclosed.1 hclosed.2

end Sharding
