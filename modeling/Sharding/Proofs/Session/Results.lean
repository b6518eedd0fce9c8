import Sharding.Proofs.Session.Phases

/-!
# Results of a completed execution

A logical statement is in a completed phase after an execution that succeeded.  The results of that
execution are given up by the next call that starts over.  A call that succeeds enters a phase of
its own.  A call that fails may leave the completed phase behind without its results: a batch whose
first call has no route, or any execution that cannot close the last result set.

`completed_results` says which of the two it is, by the last call that started over.
-/

namespace Sharding

variable {W : Type} {s s' : Session} {w w₀ : W} {isQuery : Bool}

namespace Request

variable {request : Request}

theorem startsOver_of_binds (h : request.binds = true) : request.startsOver isQuery = false := by
  cases request <;> first | rfl | cases h

theorem startsOver_of_reads (h : request.reads = true) : request.startsOver isQuery = false := by
  cases request <;> first | rfl | cases h

theorem startsOver_of_executes (h : request.executes = true) :
    request.startsOver isQuery = true := by
  cases request <;> first | rfl | cases h

end Request

/-- The last call that started over, with what it was answered. -/
def History.lastStart (isQuery : Bool) (history : History) :
    Option (Request × Except Error Answer) :=
  (history.filter (·.1.startsOver isQuery)).getLast?

theorem History.lastStart_concat (isQuery : Bool) (history : History) (request : Request)
    (reply : Except Error Answer) :
    lastStart isQuery (history ++ [(request, reply)]) =
      if request.startsOver isQuery then some (request, reply) else lastStart isQuery history := by
  rw [lastStart, List.filter_append]
  by_cases hstarts : request.startsOver isQuery = true
  · simp [hstarts]
  · simp [hstarts, lastStart]

namespace Session

/-- The rows that a query leaves with its answer. -/
def RowsAfter (reply : Except Error Answer) (s : Session) : Prop :=
  match reply with
  | .ok answer => ∃ r, s.resultSet = some r ∧
      (answer = .hasRows true ∨ ∃ r₀, answer = .resultSet r₀ ∧ r.columns = r₀.columns)
  | .error _ => s.resultSet = none

/-- The count that an update leaves with its answer. -/
def CountAfter (request : Request) (reply : Except Error Answer) (s : Session) : Prop :=
  match reply with
  | .ok answer => ∃ count, s.updateCount = some count ∧
      (request = .executeUpdate → answer = .count count)
  | .error _ => s.updateCount = none

/-- In a completed phase there is a last call that started over, and the results are there if it
succeeded. -/
structure Completed (last : Option (Request × Except Error Answer)) (s : Session) : Prop where
  query : s.phase = .queryCompleted →
    ∃ request reply, last = some (request, reply) ∧ s.RowsAfter reply
  update : s.phase = .updateCompleted →
    ∃ request reply, last = some (request, reply) ∧ s.CountAfter request reply

variable {last : Option (Request × Except Error Answer)} {request : Request}
  {reply : Except Error Answer}

theorem completed_of_phase (hquery : s.phase ≠ .queryCompleted)
    (hupdate : s.phase ≠ .updateCompleted) : s.Completed last :=
  ⟨fun h => (hquery h).elim, fun h => (hupdate h).elim⟩

/-- A call that fails to start over leaves no results. -/
theorem completed_of_error {e : Error} (hrows : s.resultSet = none)
    (hcount : s.updateCount = none) :
    s.Completed (some (request, .error e)) :=
  ⟨fun _ => ⟨_, _, rfl, hrows⟩, fun _ => ⟨_, _, rfl, hcount⟩⟩

/-- Every step keeps the results and the phase in agreement with the last call that started over. -/
theorem Step.completed (hstep : Step isQuery request s reply s') (h : s.Completed last) :
    s'.Completed (if request.startsOver isQuery then some (request, reply) else last) := by
  cases hstep with
  | refused hclosed => exact completed_of_phase (by simp [hclosed]) (by simp [hclosed])
  | closedAgain | cancelled | keysAsked => exact h
  | bound _ hbinds =>
    rw [Request.startsOver_of_binds hbinds]
    exact ⟨h.query, h.update⟩
  | read hreads hphase hrows hcolumns =>
    rw [Request.startsOver_of_reads hreads]
    obtain ⟨start, answer, hlast, hrows'⟩ := h.query hphase
    refine ⟨fun _ => ⟨start, answer, hlast, ?_⟩, fun hupdate => nomatch hphase.symm.trans hupdate⟩
    cases answer with
    | error e => cases hrows.symm.trans hrows'
    | ok answer =>
      obtain ⟨r, hr, hanswer⟩ := hrows'
      cases hrows.symm.trans hr
      exact ⟨_, rfl, hanswer.imp_right fun ⟨r₀, hr₀, hr⟩ => ⟨r₀, hr₀, hcolumns.trans hr⟩⟩
  | unread hreads =>
    rw [Request.startsOver_of_reads hreads]
    exact h
  | interrupted hstarts =>
    rw [if_pos hstarts]
    exact completed_of_error rfl rfl
  | failed => exact completed_of_phase nofun nofun
  | queried hexecutes _ hanswer =>
    rw [Request.startsOver_of_executes hexecutes]
    refine ⟨fun _ => ⟨_, _, rfl, _, rfl, ?_⟩, nofun⟩
    exact hanswer.symm.imp_right fun hr => ⟨_, hr, rfl⟩
  | updated hexecutes _ hanswer =>
    rw [Request.startsOver_of_executes hexecutes]
    exact ⟨nofun, fun _ => ⟨_, _, rfl, _, rfl, hanswer⟩⟩
  | unqueued _ hcause =>
    rcases hcause with rfl | hphase
    · exact h
    · exact completed_of_phase (by simp [hphase]) (by simp [hphase])
  | unbegun hquery =>
    subst hquery
    exact completed_of_error rfl rfl
  | queued hphase =>
    exact completed_of_phase (fun h => nomatch hphase.symm.trans h)
      fun h => nomatch hphase.symm.trans h
  | begun | nothingQueued | flushed | closed => exact completed_of_phase nofun nofun
  | discarded =>
    by_cases hphase : s.phase = .batchAccumulating
    · rw [if_pos hphase]
      exact completed_of_phase nofun nofun
    · rw [if_neg hphase]
      exact ⟨h.query, h.update⟩

end Session

open Session LogicalStatement

theorem LogicalStatement.run_resultSet (h : s.phase = .queryCompleted) :
    resultSet.run (s, w) = match s.resultSet with
      | some r => (.ok r, (s, w))
      | none => (.error (.error (.state (.noResultSet .queryCompleted))), (s, w)) := by
  cases s with
  | mk phase _ _ rows =>
    cases h
    cases rows <;> rfl

/-- In a completed phase the result is there if the last call that started over succeeded: the
result set, with the columns of the one that was answered, or the count that was answered.  If that
call failed, there is no result, although the phase says so. -/
theorem completed_results {l : LogicalStatement W} {history : History}
    (h : Runs l history ({}, w₀) (s, w)) :
    (s.phase = .queryCompleted →
      ∃ request reply, history.lastStart l.statement.isQuery = some (request, reply) ∧
        match reply with
        | .ok answer => ∃ r, resultSet.run (s, w) = (.ok r, (s, w)) ∧
            (answer = .hasRows true ∨ ∃ r₀, answer = .resultSet r₀ ∧ r.columns = r₀.columns)
        | .error _ =>
            resultSet.run (s, w) =
              (.error (.error (.state (.noResultSet .queryCompleted))), (s, w))) ∧
    (s.phase = .updateCompleted →
      ∃ request reply, history.lastStart l.statement.isQuery = some (request, reply) ∧
        match reply with
        | .ok answer => ∃ count, s.lastUpdateCount = some count ∧
            (request = .executeUpdate → answer = .count count)
        | .error _ => s.lastUpdateCount = none) := by
  have hcompleted : s.Completed (history.lastStart l.statement.isQuery) := by
    refine h.induct (motive := fun history p => p.1.Completed (history.lastStart _))
      (completed_of_phase nofun nofun) fun history p request hp => ?_
    refine (perform_ends request).mono fun reply q hstep => ?_
    rw [History.lastStart_concat]
    exact hstep.completed hp
  refine ⟨fun hphase => ?_, fun hphase => ?_⟩
  · obtain ⟨request, reply, hlast, hrows⟩ := hcompleted.query hphase
    refine ⟨request, reply, hlast, ?_⟩
    rw [run_resultSet hphase]
    cases reply with
    | error e =>
      rw [show s.resultSet = none from hrows]
    | ok answer =>
      obtain ⟨r, hr, hanswer⟩ := hrows
      rw [hr]
      exact ⟨r, rfl, hanswer⟩
  · obtain ⟨request, reply, hlast, hcount⟩ := hcompleted.update hphase
    refine ⟨request, reply, hlast, ?_⟩
    rw [lastUpdateCount, if_pos hphase]
    cases reply <;> exact hcount

/-- The update that `statusUpdate` is, run on two shards. -/
theorem completed_results_update :
    ∃ history s w, Runs statusUpdate history ({}, twoShards) (s, w) ∧
      history.lastStart false = some (.executeUpdate, .ok (.count 7)) ∧
      s.phase = .updateCompleted ∧ s.lastUpdateCount = some 7 := by
  have h := runs_play statusUpdate [.setParameters [.text "paid"], .executeUpdate, .clearBatch]
    ({}, twoShards)
  generalize hplay : statusUpdate.play _ _ = run at h
  have hrun : (run.1.lastStart false, run.2.1.phase) =
      (some (.executeUpdate, .ok (.count 7)), .updateCompleted) := by
    rw [← hplay]
    cbv
  obtain ⟨hlast, hphase⟩ := Prod.mk.inj hrun
  refine ⟨_, _, _, h, hlast, hphase, ?_⟩
  obtain ⟨request, reply, hlast', hcount⟩ := (completed_results h).2 hphase
  cases hlast.symm.trans hlast'
  obtain ⟨count, hcount, hanswer⟩ := hcount
  cases hanswer rfl
  exact hcount

/-- The change of the status of one user's orders. -/
def userUpdate : LogicalStatement (Memory × Bool) :=
  { statusUpdate with
    statement := .update
      { template :=
          { text := "UPDATE t_order SET status = 'x' WHERE user_id = ?"
            tokens := [.table 7 7 "t_order"] }
        tables := ["t_order"]
        conditions := [⟨"t_order", "user_id", .equal (.parameter 0)⟩] }
    router :=
      { statusUpdate.router with
        rule := { tables := [{ name := "t_order", nodes := [⟨"ds_0", "t_order_0"⟩]
                               strategy := some ⟨"user_id", .modulo⟩ }] } } }

/-- The update changes one row.  Then a call is queued without its parameter, which fails, and the
count is gone, although the phase is that of a completed update. -/
theorem update_count_lost :
    ∃ s w history, Runs userUpdate history
        ({}, ((Memory.ofShards ["ds_0"]).script "ds_0" "UPDATE t_order_0" (.ok (.update 1 false)),
          false)) (s, w) ∧
      history =
        [(.setParameter 0 (.int64 7), .ok .done), (.executeUpdate, .ok (.count 1)),
          (.clearParameters, .ok .done),
          (.addBatch, .error (.routing (.unboundParameter 0 0)))] ∧
      s.phase = .updateCompleted ∧ s.lastUpdateCount = none := by
  refine ⟨_, _, _, runs_play userUpdate
    [.setParameter 0 (.int64 7), .executeUpdate, .clearParameters, .addBatch] _, ?_⟩
  cbv
  exact ⟨rfl, trivial⟩

end Sharding
