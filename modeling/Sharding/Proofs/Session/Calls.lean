import Sharding.Proofs.Act.Ending
import Sharding.Session.Batch
import Sharding.Session.Execution

/-!
# Runs of calls on a logical statement

A `Request` is a call that a client can make on a logical statement, and `LogicalStatement.perform`
makes it.  `Runs` are sequences of calls that are answered, with an answer or with an error; a call
that crashes is the last one that a client makes, so it is in no run.

`Session.Step` is the state machine of a logical statement: what a request does to the session, by
cases.  A call is a step of it (`LogicalStatement.perform_ends`), whatever the world of the
statement is like.
-/

namespace Sharding

/-- A call that a client makes on a logical statement. -/
inductive Request where
  | setParameter (index : Nat) (value : Datum)
  | setParameters (params : List Datum)
  | clearParameters
  | executeQuery
  | executeUpdate
  | execute
  | resultSet
  | nextRow
  | allRows
  | closeResultSet
  | generatedKeys
  | addBatch
  | executeBatch
  | clearBatch
  /-- Trips the token of the statement. -/
  | cancel
  | close
deriving DecidableEq

/-- What a call answers. -/
inductive Answer where
  | done
  | resultSet (r : ResultSet)
  | row (row : Option Row)
  | rows (rows : List Row)
  | count (n : UInt64)
  | hasRows (b : Bool)
  | keys (keys : GeneratedKeys)
  | queued (call : Nat)
  | counts (ns : List UInt64)

namespace Request

/-- The calls that bind parameters. -/
def binds : Request → Bool
  | setParameter _ _ | setParameters _ | clearParameters => true
  | _ => false

/-- The calls on the result set. -/
def reads : Request → Bool
  | resultSet | nextRow | allRows | closeResultSet => true
  | _ => false

/-- The executions of a single call. -/
def executes : Request → Bool
  | executeQuery | executeUpdate | execute => true
  | _ => false

/-- The calls that give up the results of the last execution, except in the midst of a batch.  A
query cannot be queued, so queuing it gives up nothing. -/
def startsOver (isQuery : Bool) : Request → Bool
  | executeQuery | executeUpdate | execute | executeBatch => true
  | addBatch => !isQuery
  | _ => false

/-- The calls that a closed statement refuses. -/
def needsOpen : Request → Bool
  | cancel | close => false
  | _ => true

end Request

/-- Makes a call. -/
def LogicalStatement.perform {W : Type} (l : LogicalStatement W) : Request → Call W Answer
  | .setParameter index value => do
    setParameter index value
    return .done
  | .setParameters params => do
    setParameters params
    return .done
  | .clearParameters => do
    clearParameters
    return .done
  | .executeQuery => return .resultSet (← l.executeQuery)
  | .executeUpdate => return .count (← l.executeUpdate)
  | .execute => return .hasRows (← l.execute)
  | .resultSet => return .resultSet (← resultSet)
  | .nextRow => return .row (← l.nextRow)
  | .allRows => return .rows (← l.allRows)
  | .closeResultSet => do
    l.closeResultSet
    return .done
  | .generatedKeys => return .keys (← l.generatedKeys)
  | .addBatch => return .queued (← l.addBatch)
  | .executeBatch => return .counts (← l.executeBatch)
  | .clearBatch => do
    l.clearBatch
    return .done
  | .cancel => do
    (Act.effect (l.dispatcher.token.put true)).outside
    return .done
  | .close => do
    l.close
    return .done

/-- The calls of a run, each with what it was answered. -/
abbrev History := List (Request × Except Error Answer)

/-- A run of calls that are answered, from a session and a world to those after the last call. -/
inductive Runs {W : Type} (l : LogicalStatement W) : History → Session × W → Session × W → Prop
  | nil {p} : Runs l [] p p
  | snoc {history p q q' request reply} : Runs l history p q →
      (l.perform request).attempt.run q = (.ok reply, q') →
      Runs l (history ++ [(request, reply)]) p q'

/-- What every call preserves holds after every run. -/
theorem Runs.induct {W : Type} {l : LogicalStatement W} {history : History} {p q : Session × W}
    {motive : History → Session × W → Prop} (h : Runs l history p q) (hp : motive [] p)
    (hstep : ∀ history q request, motive history q →
      (l.perform request).Ends q fun reply q' => motive (history ++ [(request, reply)]) q') :
    motive history q := by
  induction h with
  | nil => exact hp
  | snoc _ hrun ih => exact Act.ends_iff.1 (hstep _ _ _ (ih hp)) _ _ hrun

/-- Makes some calls, up to the first one that crashes. -/
def LogicalStatement.play {W : Type} (l : LogicalStatement W) :
    List Request → Session × W → History × (Session × W)
  | [], p => ([], p)
  | request :: rest, p =>
    match (l.perform request).attempt.run p with
    | (.ok reply, q) => ((request, reply) :: (l.play rest q).1, (l.play rest q).2)
    | (.error _, _) => ([], p)

theorem Runs.cons {W : Type} {l : LogicalStatement W} {history : History} {p q r : Session × W}
    {request : Request} {reply : Except Error Answer}
    (hrun : (l.perform request).attempt.run p = (.ok reply, q)) (h : Runs l history q r) :
    Runs l ((request, reply) :: history) p r := by
  induction h with
  | nil => exact .snoc .nil hrun
  | snoc _ hlast ih => exact .snoc (ih hrun) hlast

theorem runs_play {W : Type} (l : LogicalStatement W) (requests : List Request)
    (p : Session × W) : Runs l (l.play requests p).1 p (l.play requests p).2 := by
  induction requests generalizing p with
  | nil => exact .nil
  | cons request rest ih =>
    rw [LogicalStatement.play]
    split
    next reply q hrun => exact (ih q).cons hrun
    next => exact .nil

/-! ## The state machine -/

namespace Session

/-- A session without the results of its last execution. -/
def givenUp (s : Session) : Session :=
  { s with resultSet := none, updateCount := none, keys := .none, executor := {} }

/-- Routing a call and running its units changes the phase, the route and the statements held. -/
def Working (s s' : Session) : Prop :=
  ∃ phase route executor, s' = { s with phase, route, executor }

/-- An update also leaves its count and its keys. -/
def Counted (s : Session) (count : UInt64) (s' : Session) : Prop :=
  ∃ phase route executor keys,
    s' = { s with phase, route, executor, updateCount := some count, keys }

/-- What a request does to the session of a query or of another statement, and how it may be
answered. -/
inductive Step (isQuery : Bool) : Request → Session → Except Error Answer → Session → Prop
  /-- A closed statement refuses every call but the close. -/
  | refused {request s} : s.phase = .closed → request.needsOpen = true →
      Step isQuery request s (.error (.state .statementClosed)) s
  | closedAgain {s} : s.phase = .closed → Step isQuery .close s (.ok .done) s
  | cancelled {s} : Step isQuery .cancel s (.ok .done) s
  | bound {request s params} : s.phase ≠ .closed → request.binds = true →
      Step isQuery request s (.ok .done) { s with params }
  /-- The result set is read or closed. -/
  | read {request s reply r r'} : request.reads = true → s.phase = .queryCompleted →
      s.resultSet = some r → r'.columns = r.columns →
      Step isQuery request s reply { s with resultSet := some r' }
  | unread {request s} : request.reads = true → s.phase ≠ .closed →
      (s.phase = .queryCompleted → s.resultSet = none) →
      Step isQuery request s (.error (.state (.noResultSet s.phase))) s
  | keysAsked {s reply} : s.phase ≠ .closed → Step isQuery .generatedKeys s reply s
  /-- The result set cannot be closed.  It is given up nevertheless, and nothing else happens. -/
  | interrupted {request s e} : request.startsOver isQuery = true → s.phase ≠ .closed →
      (request.executes = true ∨ s.phase ≠ .batchAccumulating) → s.resultSet ≠ none →
      Step isQuery request s (.error e) s.givenUp
  | failed {request s e route} : request.executes = true → s.phase ≠ .closed →
      Step isQuery request s (.error e) { s.givenUp with phase := .idle, batch := {}, route }
  | queried {request s answer route executor r} : request.executes = true → s.phase ≠ .closed →
      answer = .resultSet r ∨ answer = .hasRows true →
      Step isQuery request s (.ok answer)
        { s.givenUp with
          phase := .queryCompleted, batch := {}, route, executor, resultSet := some r }
  | updated {request s answer route count keys} : request.executes = true → s.phase ≠ .closed →
      (request = .executeUpdate → answer = .count count) →
      Step isQuery request s (.ok answer)
        { s.givenUp with
          phase := .updateCompleted, batch := {}, route, updateCount := some count, keys }
  /-- A query cannot be queued, and a call that has no route is not queued. -/
  | unqueued {s e} : s.phase ≠ .closed → isQuery = true ∨ s.phase = .batchAccumulating →
      Step isQuery .addBatch s (.error e) s
  /-- Also the first call of a batch may have no route. -/
  | unbegun {s e} : isQuery = false → s.phase ≠ .closed → s.phase ≠ .batchAccumulating →
      Step isQuery .addBatch s (.error e) { s.givenUp with batch := {} }
  | begun {s answer route batch} : isQuery = false → s.phase ≠ .closed →
      s.phase ≠ .batchAccumulating →
      batch.calls = 1 → batch.groups = [] →
      Step isQuery .addBatch s (.ok answer)
        { s.givenUp with phase := .batchAccumulating, batch, route, params := [] }
  | queued {s answer route batch} : s.phase = .batchAccumulating →
      batch.calls = s.batch.calls + 1 → batch.groups = s.batch.groups →
      Step isQuery .addBatch s (.ok answer) { s with batch, route, params := [] }
  | nothingQueued {s} : s.phase ≠ .closed → s.phase ≠ .batchAccumulating →
      Step isQuery .executeBatch s (.ok (.counts [])) { s.givenUp with phase := .idle }
  | flushed {s reply batch keys} : s.phase = .batchAccumulating →
      batch.calls = 0 → batch.groups = [] →
      Step isQuery .executeBatch s reply { s with phase := .idle, batch, keys }
  | discarded {s} : s.phase ≠ .closed →
      Step isQuery .clearBatch s (.ok .done)
        { s with
          batch := {}, phase := if s.phase = .batchAccumulating then .idle else s.phase }
  | closed {s reply} : s.phase ≠ .closed →
      Step isQuery .close s reply
        { s.givenUp with phase := .closed, batch := {}, params := [], route := none }

end Session

/-! ## Calls are steps -/

namespace ResultSet

variable {W : Type} {closer : Closer W}

theorem columns_next (r : ResultSet) (w : W) : (r.next closer w).2.1.columns = r.columns := by
  unfold next
  split <;> rfl

theorem columns_close (r : ResultSet) (w : W) : (r.close closer w).2.1.columns = r.columns := by
  unfold close
  split <;> rfl

theorem columns_readAllFrom (fuel : Nat) (r : ResultSet) (w : W) :
    (r.readAllFrom closer fuel w).2.1.columns = r.columns := by
  induction fuel generalizing r w with
  | zero => rfl
  | succ fuel ih =>
    have hnext : (r.next closer w).2.1.columns = r.columns := r.columns_next w
    unfold readAllFrom
    split <;> rename_i h <;> rw [h] at hnext
    · exact hnext
    · exact hnext
    · exact (ih ..).trans hnext

/-- Reading leaves the columns as they are. -/
theorem columns_readAll (r : ResultSet) (w : W) :
    (r.readAll closer w).2.1.columns = r.columns :=
  columns_readAllFrom ..

end ResultSet

namespace LogicalStatement

open Act Session

variable {W α : Type} {l : LogicalStatement W} {s : Session} {w : W}

theorem ends_ensureOpen {post : Except Error Unit → Session × W → Prop} :
    (ensureOpen : Call W Unit).Ends (s, w) post ↔
      if s.phase = .closed then post (.error (.state .statementClosed)) (s, w)
      else post (.ok ()) (s, w) := by
  simp only [ensureOpen, isClosed, ends_bind, ends_state, beq_iff_eq]
  split <;> simp

@[simp] theorem ends_enter {phase : Phase} {post : Except Error Unit → Session × W → Prop} :
    (enter phase : Call W Unit).Ends (s, w) post ↔ post (.ok ()) ({ s with phase }, w) :=
  Iff.rfl

/-- The world after the current result set is closed. -/
def closedRows (l : LogicalStatement W) (s : Session) (w : W) : W :=
  match s.resultSet with
  | none => w
  | some r => (r.close l.dispatcher.provider.closeCursor w).2.2

/-- What closing the current result set answers. -/
def closedReply (l : LogicalStatement W) (s : Session) (w : W) : Except Error Unit :=
  match s.resultSet with
  | none => .ok ()
  | some r => (r.close l.dispatcher.provider.closeCursor w).1

theorem resetResults_answers : l.resetResults.Ends (s, w) fun reply p =>
    p = (s.givenUp,
      closeGroups l.dispatcher.provider s.executor.groups (l.closedRows s w)) ∧
      reply = l.closedReply s w := by
  cases h : s.resultSet with
  | none =>
    simp [resetResults, onExecutor, StatementExecutor.clear, closedRows, closedReply, h, givenUp]
  | some r =>
    simp [resetResults, onExecutor, StatementExecutor.clear, closeRows, closedRows, closedReply, h,
      givenUp]

/-- The results are given up also when the result set cannot be closed. -/
theorem resetResults_ends : l.resetResults.Ends (s, w) fun reply p =>
    p = (s.givenUp,
      closeGroups l.dispatcher.provider s.executor.groups (l.closedRows s w)) ∧
      (s.resultSet = none → reply = .ok ()) := by
  refine resetResults_answers.mono fun reply p h => ?_
  obtain ⟨rfl, rfl⟩ := h
  refine ⟨rfl, fun hnone => ?_⟩
  rw [closedReply, hnone]

@[simp] theorem ends_discardBatch {post : Except Error Unit → Session × W → Prop} :
    l.discardBatch.Ends (s, w) post ↔
      post (.ok ())
        ({ s with batch := {} }, closeGroups l.dispatcher.provider s.batch.groups w) :=
  Iff.rfl

/-- An execution is refused, cannot close the last result set, or starts from an idle session. -/
theorem beginCall_ends : l.beginCall.Ends (s, w) fun reply p =>
    match reply with
    | .ok _ => s.phase ≠ .closed ∧ p.1 = { s.givenUp with phase := .idle, batch := {} }
    | .error e => s.phase = .closed ∧ e = .state .statementClosed ∧ p.1 = s ∨
        s.phase ≠ .closed ∧ s.resultSet ≠ none ∧ p.1 = s.givenUp := by
  rw [beginCall, ends_bind, ends_ensureOpen]
  split
  next h => exact .inl ⟨h, rfl, rfl⟩
  next h =>
    refine resetResults_ends.bind ?_ ?_
    · rintro _ _ ⟨rfl, -⟩
      exact ⟨h, rfl⟩
    · rintro e _ ⟨rfl, hreply⟩
      exact .inr ⟨h, fun hnone => (nomatch hreply hnone), rfl⟩

/-! ### Executions -/

theorem routeCurrent_ends : l.routeCurrent.Ends (s, w) fun reply p =>
    match reply with
    | .ok route => p.1 = { s with route := some route, phase := .routed }
    | .error _ => p.1 = s := by
  simp only [routeCurrent, ends_bind, ends_state, ends_outside]
  refine .of_forall fun reply w' => ?_
  cases reply with
  | ok route => rfl
  | error e => trivial

theorem prepareCurrent_ends : l.prepareCurrent.Ends (s, w) fun _ p => s.Working p.1 := by
  refine routeCurrent_ends.bind ?_ ?_
  · rintro route ⟨_, w'⟩ rfl
    simp only [onExecutor, ends_bind, ends_enter, ends_within]
    refine .of_forall fun reply q => ?_
    cases reply <;> exact ⟨_, _, _, rfl⟩
  · rintro e ⟨_, w'⟩ rfl
    exact ⟨_, _, _, rfl⟩

/-- Units that are run on the executor leave the rest of the session as it is. -/
theorem onExecutor_ends {x : Act (StatementExecutor × W) α} {s₀ : Session} (h : s₀.Working s) :
    (onExecutor x).Ends (s, w) fun _ p => s₀.Working p.1 := by
  obtain ⟨_, _, _, rfl⟩ := h
  rw [onExecutor, ends_within]
  exact .of_forall fun _ _ => ⟨_, _, _, rfl⟩

theorem runQuery_ends : l.runQuery.Ends (s, w) fun _ p => s.Working p.1 := by
  refine prepareCurrent_ends.bind (fun route ⟨s', w'⟩ hs => ?_) fun _ _ hs => hs
  refine (onExecutor_ends hs).bind (fun sources ⟨s', w'⟩ hs => ?_) fun _ _ hs => hs
  exact ends_outside.2 (.of_forall fun _ _ => hs)

theorem completeUpdate_ends {route : Route} {outcomes : List UpdateOutcome} {s₀ : Session}
    (h : s₀.Working s) : (l.completeUpdate route outcomes).Ends (s, w) fun reply p =>
      ∃ count, reply = .ok count ∧ s₀.Counted count p.1 := by
  obtain ⟨_, _, _, rfl⟩ := h
  exact ⟨_, rfl, _, _, _, _, rfl⟩

theorem runUpdate_ends : l.runUpdate.Ends (s, w) fun reply p =>
    match reply with
    | .ok count => s.Counted count p.1
    | .error _ => s.Working p.1 := by
  refine prepareCurrent_ends.bind (fun route ⟨s', w'⟩ hs => ?_) fun _ _ hs => hs
  refine (onExecutor_ends hs).bind (fun outcomes ⟨s', w'⟩ hs => ?_) fun _ _ hs => hs
  refine (completeUpdate_ends hs).mono ?_
  rintro _ p ⟨count, rfl, hcount⟩
  exact hcount

theorem runEither_ends : l.runEither.Ends (s, w) fun reply p =>
    match reply with
    | .ok none => ∃ count, s.Counted count p.1
    | .ok (some _) | .error _ => s.Working p.1 := by
  refine prepareCurrent_ends.bind (fun route ⟨s', w'⟩ hs => ?_) fun _ _ hs => hs
  refine (onExecutor_ends hs).bind (fun outcomes ⟨s', w'⟩ hs => ?_) fun _ _ hs => hs
  split
  · refine (completeUpdate_ends hs).bind ?_ ?_
    · rintro count p ⟨_, ⟨⟩, hcount⟩
      exact ⟨_, hcount⟩
    · rintro e p ⟨_, ⟨⟩, -⟩
  · rw [ends_bind, ends_outside]
    refine .of_forall fun reply w' => ?_
    cases reply <;> exact hs
  · exact hs

/-- An execution that does not start is refused or interrupted. -/
theorem step_of_beginCall {request : Request} {e : Error} {s' : Session}
    (hexecutes : request.executes = true)
    (h : s.phase = .closed ∧ e = .state .statementClosed ∧ s' = s ∨
      s.phase ≠ .closed ∧ s.resultSet ≠ none ∧ s' = s.givenUp) :
    Step l.statement.isQuery request s (.error e) s' := by
  obtain ⟨hclosed, rfl, rfl⟩ | ⟨hopen, hrows, rfl⟩ := h
  · exact .refused hclosed (by cases request <;> first | rfl | cases hexecutes)
  · exact .interrupted (by cases request <;> first | rfl | cases hexecutes) hopen
      (.inl hexecutes) hrows

theorem executeQuery_ends : l.executeQuery.Ends (s, w) fun reply p =>
    Step l.statement.isQuery .executeQuery s (reply.map .resultSet) p.1 := by
  refine beginCall_ends.bind ?_ fun e p h => step_of_beginCall rfl h
  rintro _ ⟨_, w'⟩ ⟨hopen, rfl⟩
  split
  · exact .failed rfl hopen
  · refine runQuery_ends.bind_attempt ?_
    rintro reply ⟨_, w'⟩ ⟨phase, route, executor, rfl⟩
    cases reply with
    | ok r => exact .queried rfl hopen (.inl rfl)
    | error e => exact .failed rfl hopen

theorem executeUpdate_ends : l.executeUpdate.Ends (s, w) fun reply p =>
    Step l.statement.isQuery .executeUpdate s (reply.map .count) p.1 := by
  refine beginCall_ends.bind ?_ fun e p h => step_of_beginCall rfl h
  rintro _ ⟨_, w'⟩ ⟨hopen, rfl⟩
  split
  · exact .failed rfl hopen
  · refine runUpdate_ends.bind_attempt ?_
    rintro (e | count) ⟨_, w'⟩ h
    · obtain ⟨phase, route, executor, rfl⟩ := h
      exact .failed rfl hopen
    · obtain ⟨phase, route, executor, keys, rfl⟩ := h
      exact .updated rfl hopen fun _ => rfl

theorem execute_ends : l.execute.Ends (s, w) fun reply p =>
    Step l.statement.isQuery .execute s (reply.map .hasRows) p.1 := by
  refine beginCall_ends.bind ?_ fun e p h => step_of_beginCall rfl h
  rintro _ ⟨_, w'⟩ ⟨hopen, rfl⟩
  refine runEither_ends.bind_attempt ?_
  rintro (e | _ | r) ⟨_, w'⟩ h
  · obtain ⟨phase, route, executor, rfl⟩ := h
    exact .failed rfl hopen
  · obtain ⟨count, phase, route, executor, keys, rfl⟩ := h
    exact .updated rfl hopen (by rintro ⟨⟩)
  · obtain ⟨phase, route, executor, rfl⟩ := h
    exact .queried rfl hopen (.inr rfl)

/-! ### Batches -/

theorem addBatch_ends : l.addBatch.Ends (s, w) fun reply p =>
    Step l.statement.isQuery .addBatch s (reply.map .queued) p.1 := by
  rw [addBatch, ends_bind, ends_ensureOpen]
  split
  next h => exact .refused h rfl
  next hopen =>
    dsimp only
    by_cases hquery : l.statement.isQuery = true
    · rw [if_pos hquery]
      exact Step.unqueued hopen (.inl hquery)
    · rw [if_neg hquery, ends_bind, ends_state]
      dsimp only
      rw [Bool.not_eq_true] at hquery
      by_cases hphase : s.phase = .batchAccumulating
      · rw [if_neg (not_not_intro hphase)]
        refine routeCurrent_ends.bind ?_ ?_
        · rintro route ⟨_, w'⟩ rfl
          have hnext : Step l.statement.isQuery .addBatch s (.ok (.queued s.batch.calls))
              { s with
                batch := (s.batch.add route.units route.keyInfo).2, route := some route,
                params := [] } := Step.queued hphase rfl rfl
          rw [hphase] at hnext
          exact hnext
        · rintro e ⟨_, w'⟩ rfl
          exact .unqueued hopen (.inr hphase)
      · rw [if_pos hphase]
        refine resetResults_ends.bind ?_ ?_
        · rintro _ _ ⟨rfl, -⟩
          rw [ends_bind, ends_discardBatch]
          refine routeCurrent_ends.bind ?_ ?_
          · rintro route ⟨_, w'⟩ rfl
            exact .begun hquery hopen hphase rfl rfl
          · rintro e ⟨_, w'⟩ rfl
            exact .unbegun hquery hopen hphase
        · rintro e _ ⟨rfl, hreply⟩
          exact .interrupted (by rw [hquery]; rfl) hopen (.inr hphase) fun hnone =>
            nomatch hreply hnone

theorem executeBatch_ends : l.executeBatch.Ends (s, w) fun reply p =>
    Step l.statement.isQuery .executeBatch s (reply.map .counts) p.1 := by
  rw [executeBatch, ends_bind, ends_ensureOpen]
  split
  next h => exact .refused h rfl
  next hopen =>
    dsimp only
    rw [ends_bind, ends_state]
    dsimp only
    by_cases hphase : s.phase = .batchAccumulating
    · rw [if_neg (not_not_intro hphase)]
      have hbatch : (onBatch (BatchExecutor.execute l.dispatcher l.accumulate)).Ends (s, w)
          fun _ p => ∃ batch, p.1 = { s with batch } := by
        rw [onBatch, ends_within]
        exact .of_forall fun _ _ => ⟨_, rfl⟩
      refine hbatch.bind_attempt ?_
      rintro reply ⟨_, w'⟩ ⟨batch, rfl⟩
      cases reply <;> exact .flushed hphase rfl rfl
    · rw [if_pos hphase]
      refine resetResults_ends.bind ?_ ?_
      · rintro _ _ ⟨rfl, -⟩
        exact .nothingQueued hopen hphase
      · rintro e _ ⟨rfl, hreply⟩
        exact .interrupted rfl hopen (.inr hphase) fun hnone => nomatch hreply hnone

theorem clearBatch_ends : l.clearBatch.Ends (s, w) fun reply p =>
    Step l.statement.isQuery .clearBatch s (reply.map fun _ => .done) p.1 := by
  rw [clearBatch, ends_bind, ends_ensureOpen]
  split
  next h => exact .refused h rfl
  next hopen =>
    dsimp only
    rw [ends_bind, ends_discardBatch]
    dsimp only
    rw [ends_bind, ends_state]
    dsimp only
    have hnext : Step l.statement.isQuery .clearBatch s (.ok .done) _ := Step.discarded hopen
    by_cases hphase : s.phase = .batchAccumulating
    · rw [if_pos hphase] at hnext ⊢
      exact hnext
    · rw [if_neg hphase] at hnext ⊢
      exact hnext

/-! ### Parameters, results and the close -/

theorem setParameters_ends {params : List Datum} {request : Request}
    (hbinds : request.binds = true) :
    (setParameters params : Call W Unit).Ends (s, w) fun reply p =>
      Step l.statement.isQuery request s (reply.map fun _ => .done) p.1 := by
  rw [setParameters, ends_bind, ends_ensureOpen]
  split
  next h => exact .refused h (by cases request <;> first | rfl | cases hbinds)
  next hopen => exact .bound hopen hbinds

theorem setParameter_ends {index : Nat} {value : Datum} :
    (setParameter index value : Call W Unit).Ends (s, w) fun reply p =>
      Step l.statement.isQuery (.setParameter index value) s (reply.map fun _ => .done) p.1 := by
  rw [setParameter, ends_bind, ends_ensureOpen]
  split
  next h => exact .refused h rfl
  next hopen => exact .bound hopen rfl

theorem clearParameters_ends :
    (clearParameters : Call W Unit).Ends (s, w) fun reply p =>
      Step l.statement.isQuery .clearParameters s (reply.map fun _ => .done) p.1 :=
  setParameters_ends rfl

theorem resultSet_ends {request : Request} (hreads : request.reads = true) :
    (resultSet : Call W ResultSet).Ends (s, w) fun reply p =>
      match reply with
      | .ok r => s.phase = .queryCompleted ∧ s.resultSet = some r ∧ p = (s, w)
      | .error e => Step l.statement.isQuery request s (.error e) p.1 := by
  rw [resultSet, ends_bind, ends_ensureOpen]
  split
  next h => exact .refused h (by cases request <;> first | rfl | cases hreads)
  next hopen =>
    dsimp only
    rw [ends_bind, ends_state]
    dsimp only
    split
    next r hphase hrows => exact ⟨hphase, hrows, rfl⟩
    next hnone =>
      refine Step.unread hreads hopen fun hquery => ?_
      cases hrows : s.resultSet with
      | none => rfl
      | some r => exact (hnone r hquery hrows).elim

/-- Reading goes on in the result set that there is. -/
theorem onResultSet_ends {request : Request} (hreads : request.reads = true)
    {f : ResultSet → W → Except Error α × ResultSet × W} {answer : α → Answer}
    (hcolumns : ∀ r w, (f r w).2.1.columns = r.columns) :
    (onResultSet f).Ends (s, w) fun reply p =>
      Step l.statement.isQuery request s (reply.map answer) p.1 := by
  refine (resultSet_ends hreads).bind ?_ fun e p h => h
  rintro r _ ⟨hphase, hrows, rfl⟩
  exact ends_ofStep.2 (.read hreads hphase hrows (hcolumns r w))

theorem generatedKeys_ends : l.generatedKeys.Ends (s, w) fun reply p =>
    Step l.statement.isQuery .generatedKeys s (reply.map .keys) p.1 := by
  rw [generatedKeys, ends_bind, ends_ensureOpen]
  split
  next h => exact .refused h rfl
  next hopen =>
    dsimp only
    rw [ends_bind, ends_state]
    exact ends_ofExcept.2 (.keysAsked hopen)

theorem close_ends : l.close.Ends (s, w) fun reply p =>
    Step l.statement.isQuery .close s (reply.map fun _ => .done) p.1 := by
  rw [close, ends_bind, ends_state]
  dsimp only
  by_cases hclosed : s.phase = .closed
  · rw [if_pos (by simp [isClosed, hclosed])]
    exact Step.closedAgain hclosed
  · rw [if_neg (by simp [isClosed, hclosed])]
    refine resetResults_ends.bind_attempt ?_
    rintro reply _ ⟨rfl, -⟩
    rw [ends_bind, ends_discardBatch]
    dsimp only
    rw [ends_bind, ends_update]
    exact ends_ofExcept.2 (Step.closed hclosed)

/-- A call is a step of the state machine. -/
theorem perform_ends (request : Request) : (l.perform request).Ends (s, w) fun reply p =>
    Step l.statement.isQuery request s reply p.1 := by
  cases request with
  | setParameter index value => exact setParameter_ends.bind (fun _ _ h => h) fun _ _ h => h
  | setParameters params => exact (setParameters_ends rfl).bind (fun _ _ h => h) fun _ _ h => h
  | clearParameters => exact clearParameters_ends.bind (fun _ _ h => h) fun _ _ h => h
  | executeQuery => exact executeQuery_ends.bind (fun _ _ h => h) fun _ _ h => h
  | executeUpdate => exact executeUpdate_ends.bind (fun _ _ h => h) fun _ _ h => h
  | execute => exact execute_ends.bind (fun _ _ h => h) fun _ _ h => h
  | resultSet =>
    refine (resultSet_ends rfl).bind ?_ fun _ _ h => h
    rintro r _ ⟨hphase, hrows, rfl⟩
    have hnext : Step l.statement.isQuery .resultSet s (.ok (.resultSet r))
        { s with resultSet := some r } := Step.read rfl hphase hrows rfl
    rw [← hrows] at hnext
    exact hnext
  | nextRow =>
    exact (onResultSet_ends rfl ResultSet.columns_next).bind (fun _ _ h => h) fun _ _ h => h
  | allRows =>
    exact (onResultSet_ends rfl ResultSet.columns_readAll).bind (fun _ _ h => h) fun _ _ h => h
  | closeResultSet =>
    exact (onResultSet_ends rfl ResultSet.columns_close).bind (fun _ _ h => h) fun _ _ h => h
  | generatedKeys => exact generatedKeys_ends.bind (fun _ _ h => h) fun _ _ h => h
  | addBatch => exact addBatch_ends.bind (fun _ _ h => h) fun _ _ h => h
  | executeBatch => exact executeBatch_ends.bind (fun _ _ h => h) fun _ _ h => h
  | clearBatch => exact clearBatch_ends.bind (fun _ _ h => h) fun _ _ h => h
  | cancel => exact Step.cancelled
  | close => exact close_ends.bind (fun _ _ h => h) fun _ _ h => h

end LogicalStatement

end Sharding
