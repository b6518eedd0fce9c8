import Sharding.Proofs.Merge.Closing
import Sharding.Proofs.Session.Phases

/-!
# Cancellations that are over

A cancellation concerns the execution that is in progress, which clears the token when it has been
run.  A call that is refused before it runs anything leaves the token as it is: a call of the wrong
kind, one that cannot close the result set of the last execution, and the execution of a batch
without calls.  So a token that is set stays set over such a call (`isSet_after_execution`), and the
cancellation hits the next one (`cancellation_outlives_refusal`).
-/

namespace Sharding

open Act LogicalStatement

variable {W : Type} {l : LogicalStatement W} {s s' : Session} {w w' : W} {p : Session × W}
  {request : Request}

/-- Closing handles of the provider leaves the token as it is. -/
structure CancelToken.Apart (token : CancelToken W) (provider : Provider W) : Prop where
  close : ∀ b, provider.close.Keeps fun w => token.isSet w = b
  closeCursor : ∀ b, provider.closeCursor.Keeps fun w => token.isSet w = b

/-- The execution gets as far as running the statement. -/
def LogicalStatement.Starts (l : LogicalStatement W) (s : Session) (w : W) : Request → Prop
  | .executeQuery => l.statement.isQuery = true ∧ l.closedReply s w = .ok ()
  | .executeUpdate => l.statement.isQuery = false ∧ l.closedReply s w = .ok ()
  | .execute => l.closedReply s w = .ok ()
  | .executeBatch => s.phase = .batchAccumulating
  | _ => False

namespace LogicalStatement

/-- The token is clear when the execution was started, and as before when it was not. -/
def Rearmed (l : LogicalStatement W) (s : Session) (w : W) (request : Request)
    (p : Session × W) : Prop :=
  l.dispatcher.token.isSet p.2 = true ↔
    l.dispatcher.token.isSet w = true ∧ ¬ l.Starts s w request

theorem rearmed_of_starts (h : l.Starts s w request)
    (hclear : l.dispatcher.token.isSet p.2 = false) : l.Rearmed s w request p := by
  rw [Rearmed, hclear]
  exact ⟨nofun, fun hset => absurd h hset.2⟩

theorem rearmed_of_refused (h : ¬ l.Starts s w request)
    (hsame : l.dispatcher.token.isSet p.2 = l.dispatcher.token.isSet w) :
    l.Rearmed s w request p := by
  rw [Rearmed, hsame]
  exact ⟨fun hset => ⟨hset, h⟩, fun hset => hset.1⟩

section Calls

variable (hl : l.dispatcher.token.Apart l.dispatcher.provider)
include hl

theorem isSet_closedRows :
    l.dispatcher.token.isSet (l.closedRows s w) = l.dispatcher.token.isSet w := by
  unfold closedRows
  cases s.resultSet with
  | none => rfl
  | some r => exact (hl.closeCursor _).resultSet r rfl

theorem resetResults_token : l.resetResults.Ends (s, w) fun reply p =>
    l.dispatcher.token.isSet p.2 = l.dispatcher.token.isSet w ∧ reply = l.closedReply s w := by
  refine resetResults_answers.mono fun reply p h => ?_
  obtain ⟨rfl, rfl⟩ := h
  exact ⟨(hl.close _).closeGroups _ (isSet_closedRows hl), rfl⟩

theorem beginCall_token (hopen : s.phase ≠ .closed) : l.beginCall.Ends (s, w) fun reply p =>
    l.dispatcher.token.isSet p.2 = l.dispatcher.token.isSet w ∧ reply = l.closedReply s w := by
  rw [beginCall, ends_bind, ends_ensureOpen, if_neg hopen]
  refine (resetResults_token hl).bind ?_ fun _ _ h => h
  rintro _ ⟨s', w'⟩ ⟨hset, hreply⟩
  exact ⟨(hl.close _).closeGroups s'.batch.groups hset, hreply⟩

theorem executeQuery_rearms (hopen : s.phase ≠ .closed) :
    l.executeQuery.Ends (s, w) fun _ p => l.Rearmed s w .executeQuery p := by
  refine (beginCall_token hl hopen).bind ?_ ?_
  · rintro _ ⟨s', w'⟩ ⟨hset, hreply⟩
    by_cases hquery : l.statement.isQuery = true
    · rw [if_neg (by rw [hquery]; nofun)]
      have hstarts : l.Starts s w .executeQuery := ⟨hquery, hreply.symm⟩
      refine ends_bind_attempt fun reply p => ?_
      obtain ⟨s'', w''⟩ := p
      have hclear := l.dispatcher.token.isSet_put false w''
      cases reply with
      | ok r => exact rearmed_of_starts hstarts hclear
      | error e =>
        exact rearmed_of_starts hstarts ((hl.close _).closeGroups s''.executor.groups hclear)
    · rw [if_pos (by simpa using hquery)]
      exact rearmed_of_refused (fun hstarts => hquery hstarts.1) hset
  · rintro e p ⟨hset, hreply⟩
    exact rearmed_of_refused (fun hstarts => nomatch hreply.trans hstarts.2) hset

theorem executeUpdate_rearms (hopen : s.phase ≠ .closed) :
    l.executeUpdate.Ends (s, w) fun _ p => l.Rearmed s w .executeUpdate p := by
  refine (beginCall_token hl hopen).bind ?_ ?_
  · rintro _ ⟨s', w'⟩ ⟨hset, hreply⟩
    by_cases hquery : l.statement.isQuery = true
    · rw [if_pos hquery]
      exact rearmed_of_refused (fun hstarts => nomatch hstarts.1.symm.trans hquery) hset
    · rw [if_neg hquery]
      have hstarts : l.Starts s w .executeUpdate :=
        ⟨Bool.eq_false_iff.2 hquery, hreply.symm⟩
      refine ends_bind_attempt fun reply p => ?_
      obtain ⟨s'', w''⟩ := p
      cases reply <;> exact rearmed_of_starts hstarts (l.dispatcher.token.isSet_put false _)
  · rintro e p ⟨hset, hreply⟩
    exact rearmed_of_refused (fun hstarts => nomatch hreply.trans hstarts.2) hset

theorem execute_rearms (hopen : s.phase ≠ .closed) :
    l.execute.Ends (s, w) fun _ p => l.Rearmed s w .execute p := by
  refine (beginCall_token hl hopen).bind ?_ ?_
  · rintro _ ⟨s', w'⟩ ⟨-, hreply⟩
    have hstarts : l.Starts s w .execute := hreply.symm
    refine ends_bind_attempt fun reply p => ?_
    obtain ⟨s'', w''⟩ := p
    have hclear := l.dispatcher.token.isSet_put false w''
    have hreleased := (hl.close _).closeGroups s''.executor.groups hclear
    rcases reply with e | r | _
    · exact rearmed_of_starts hstarts hreleased
    · exact rearmed_of_starts hstarts hreleased
    · exact rearmed_of_starts hstarts hclear
  · rintro e p ⟨hset, hreply⟩
    exact rearmed_of_refused (fun hstarts => nomatch hreply.trans hstarts) hset

theorem executeBatch_rearms (hopen : s.phase ≠ .closed) :
    l.executeBatch.Ends (s, w) fun _ p => l.Rearmed s w .executeBatch p := by
  rw [executeBatch, ends_bind, ends_ensureOpen, if_neg hopen]
  dsimp only
  rw [ends_bind, ends_state]
  dsimp only
  by_cases hphase : s.phase = .batchAccumulating
  · rw [if_neg (not_not_intro hphase)]
    refine ends_bind_attempt fun reply p => ?_
    obtain ⟨s'', w''⟩ := p
    cases reply <;> exact rearmed_of_starts hphase (l.dispatcher.token.isSet_put false _)
  · rw [if_pos hphase]
    refine (resetResults_token hl).bind ?_ ?_
    · rintro _ ⟨s', w'⟩ ⟨hset, -⟩
      exact rearmed_of_refused hphase hset
    · rintro e p ⟨hset, -⟩
      exact rearmed_of_refused hphase hset

end Calls

end LogicalStatement

/-- After an execution on an open statement the token is set only if it was set before and the
execution was refused before it ran anything. -/
theorem isSet_after_execution (hl : l.dispatcher.token.Apart l.dispatcher.provider)
    (hrequest : request.executes = true ∨ request = .executeBatch) (hopen : s.phase ≠ .closed)
    {reply : Except Error Answer}
    (hrun : (l.perform request).attempt.run (s, w) = (.ok reply, (s', w'))) :
    l.dispatcher.token.isSet w' = true ↔
      l.dispatcher.token.isSet w = true ∧ ¬ l.Starts s w request := by
  have hends : (l.perform request).Ends (s, w) fun _ p => l.Rearmed s w request p := by
    cases request with
    | executeQuery => exact (executeQuery_rearms hl hopen).bind (fun _ _ h => h) fun _ _ h => h
    | executeUpdate => exact (executeUpdate_rearms hl hopen).bind (fun _ _ h => h) fun _ _ h => h
    | execute => exact (execute_rearms hl hopen).bind (fun _ _ h => h) fun _ _ h => h
    | executeBatch => exact (executeBatch_rearms hl hopen).bind (fun _ _ h => h) fun _ _ h => h
    | _ => rcases hrequest with h | h <;> cases h
  exact ends_iff.1 hends reply (s', w') hrun

/-- The update of two shards is to run, and the token is set. -/
def cancelledUpdate : History × (Session × (Memory × Bool)) :=
  statusUpdate.play [.setParameters [.text "paid"], .cancel] ({}, twoShards)

/-- Both units of the update are cancelled. -/
def bothCancelled : Error :=
  .execution
    [⟨0, "ds_0", "UPDATE t_order_0 SET status = ?", .cancelled⟩,
      ⟨1, "ds_1", "UPDATE t_order_1 SET status = ?", .cancelled⟩] 2

theorem isSet_after_execution_cancelled :
    ∃ s' w', statusUpdate.dispatcher.token.isSet cancelledUpdate.2.2 = true ∧
      (statusUpdate.perform .executeUpdate).attempt.run cancelledUpdate.2 =
        (.ok (.error bothCancelled), (s', w')) ∧
      statusUpdate.dispatcher.token.isSet w' = false := by
  have hcancelled : (cancelledUpdate.2.1.phase, cancelledUpdate.2.1.resultSet,
      statusUpdate.dispatcher.token.isSet cancelledUpdate.2.2) = (.idle, none, true) := by cbv
  have hanswer : ((statusUpdate.perform .executeUpdate).attempt.run cancelledUpdate.2).1 =
      .ok (.error bothCancelled) := by cbv
  obtain ⟨hphase, hrows, hset⟩ : _ ∧ _ ∧ _ := by simpa only [Prod.mk.injEq] using hcancelled
  have hopen : cancelledUpdate.2.1.phase ≠ .closed := by
    rw [hphase]
    decide
  have hstarts : statusUpdate.Starts cancelledUpdate.2.1 cancelledUpdate.2.2 .executeUpdate := by
    refine ⟨rfl, ?_⟩
    rw [closedReply, hrows]
  have hapart : statusUpdate.dispatcher.token.Apart statusUpdate.dispatcher.provider :=
    ⟨fun _ _ _ h => h, fun _ _ _ h => h⟩
  have hcleared := isSet_after_execution hapart (.inl rfl) hopen (Prod.ext hanswer rfl)
  exact ⟨_, _, hset, Prod.ext hanswer rfl,
    Bool.eq_false_iff.2 fun hstill => (hcleared.1 hstill).2 hstarts⟩

/-- The update is called as a query with the token set.  The call is refused, and the token stays
set, so the update that comes next is cancelled. -/
theorem cancellation_outlives_refusal :
    ∃ p history, Runs statusUpdate history ({}, twoShards) p ∧
      history =
        [(.setParameters [.text "paid"], .ok .done), (.cancel, .ok .done),
          (.executeQuery, .error (.unsupported (.queryOn "update")))] ∧
      p.1.phase = .idle ∧ statusUpdate.dispatcher.token.isSet p.2 = true ∧
      (statusUpdate.executeUpdate.run p).1 = .error (.error bothCancelled) := by
  refine ⟨_, _, runs_play statusUpdate
    [.setParameters [.text "paid"], .cancel, .executeQuery] _, ?_⟩
  cbv

end Sharding
