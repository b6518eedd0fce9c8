import Sharding.Proofs.Session.Pending

/-!
# Generated keys are the keys that were written

For an insert that does not list its generated column, the keys that a logical statement answers
with are those that it has written: one for each row, in row order, each bound behind the other
values of its row in a unit that has been executed (`generatedKeys_written`).  For a batch they
stand in the order of the calls, however the calls were queued (`Queues`).

Keys belong to updates.  An insert whose units return rows has a result set, and then there are no
generated keys (`generatedKeys_of_rows`).
-/

namespace Sharding

open Act BatchExecutor Journal LogicalStatement

/-- The answers that leave the queued calls as they are. -/
def Request.leavesQueue : Request → Except Error Answer → Bool
  | addBatch, .ok _ => false
  | addBatch, .error _ | generatedKeys, _ | cancel, _ => true
  | request, _ => request.binds || request.reads

variable {W : Type} {k : Journal W} {l : LogicalStatement W} {i : Insert} {column : String}
  {sets : List (List Datum)} {p q : Session × W} {s s' : Session} {w : W}

/-- Calls are queued one after the other, each with the parameters that are bound; other calls may
be made in between. -/
inductive LogicalStatement.Queues (l : LogicalStatement W) :
    List (List Datum) → Session × W → Prop
  | start {p : Session × W} : p.1.phase ≠ .batchAccumulating → Queues l [] p
  | add {sets : List (List Datum)} {p q : Session × W} {call : Nat} : Queues l sets p →
      l.addBatch.run p = (.ok call, q) → Queues l (sets ++ [p.1.params]) q
  | between {sets : List (List Datum)} {p q : Session × W} {request : Request}
      {reply : Except Error Answer} : Queues l sets p → request.leavesQueue reply = true →
      (l.perform request).attempt.run p = (.ok reply, q) → Queues l sets q

/-! ## Queued keys -/

/-- A queued call whose keys were drawn. -/
def drawnCall (column : String) (call : List Datum × List RouteUnit) : QueuedCall :=
  (call.2, some ⟨column, call.1, true⟩)

/-- Some calls are queued, each with the keys that its units write. -/
structure Session.HasQueued (s : Session) (i : Insert) (column : String)
    (sets : List (List Datum)) (calls : List (List Datum × List RouteUnit)) : Prop where
  phase : s.phase = .batchAccumulating ↔ sets ≠ []
  batch : s.phase = .batchAccumulating → s.batch = addAll {} (calls.map (drawnCall column))
  written : List.Forall₂ (fun params call => i.Written params column call.1 call.2) sets calls

/-- Executions do not leave the queue as it is. -/
theorem Request.not_executes {request : Request} {reply : Except Error Answer}
    (h : request.leavesQueue reply = true) : request.executes = false := by
  cases request <;> first | rfl | cases h

theorem Session.Step.leavesQueue {isQuery : Bool} {request : Request}
    {reply : Except Error Answer} (hstep : Session.Step isQuery request s reply s')
    (h : request.leavesQueue reply = true) :
    (s'.phase = .batchAccumulating ↔ s.phase = .batchAccumulating) ∧
      (s.phase = .batchAccumulating → s'.batch = s.batch) := by
  cases hstep with
  | refused | cancelled | bound | read | unread | keysAsked | unqueued =>
    exact ⟨Iff.rfl, fun _ => rfl⟩
  | interrupted _ _ hqueue =>
    rw [Request.not_executes h] at hqueue
    exact ⟨Iff.rfl, fun hphase => absurd hphase (hqueue.resolve_left Bool.false_ne_true)⟩
  | unbegun _ _ hnot => exact ⟨Iff.rfl, fun hphase => absurd hphase hnot⟩
  | failed hexecutes =>
    rw [Request.not_executes h] at hexecutes
    cases hexecutes
  | queried hexecutes =>
    rw [Request.not_executes h] at hexecutes
    cases hexecutes
  | updated hexecutes =>
    rw [Request.not_executes h] at hexecutes
    cases hexecutes
  | closedAgain | begun | queued | nothingQueued | flushed | discarded | closed => cases h

/-- A call that is queued adds its units and its keys to those of the batch, which starts empty. -/
theorem addBatch_gives (hi : l.DrawsKeys i column) :
    l.addBatch.Gives (s, w) fun _ p => p.1.phase = .batchAccumulating ∧
      ∃ call, i.Written s.params column call.1 call.2 ∧
        p.1.batch = addAll (if s.phase = .batchAccumulating then s.batch else {})
          [drawnCall column call] := by
  refine addBatch_gives_route.mono fun _ p hp => ?_
  obtain ⟨route, hrun, hphase, hbatch⟩ := hp
  rw [hi.statement] at hrun
  obtain ⟨keys, hwrites, -⟩ := Router.writes_of_route hi.keyColumn hi.unlisted hrun
  refine ⟨hphase, (keys, route.units), hwrites.written, ?_⟩
  rw [hbatch, addAll, List.foldl_cons, List.foldl_nil, drawnCall, ← hwrites.keyInfo]
  rfl

/-- However calls were queued, they are queued with their keys. -/
theorem LogicalStatement.Queues.hasQueued (h : l.Queues sets p) (hi : l.DrawsKeys i column) :
    ∃ calls, p.1.HasQueued i column sets calls := by
  induction h with
  | start hphase =>
    exact ⟨[], ⟨fun h => absurd h hphase, fun h => absurd rfl h⟩, fun h => absurd h hphase, .nil⟩
  | @add sets p q call _ hrun ih =>
    obtain ⟨calls, hqueued⟩ := ih
    obtain ⟨hphase, added, hwritten, hbatch⟩ := addBatch_gives hi call q hrun
    refine ⟨calls ++ [added], ⟨fun _ => by simp, fun _ => hphase⟩, fun _ => ?_, ?_⟩
    · rw [hbatch, List.map_append, addAll, addAll, List.foldl_append, List.map_singleton]
      by_cases hp : p.1.phase = .batchAccumulating
      · rw [if_pos hp, hqueued.batch hp]
        rfl
      · have hnone : sets = [] := not_not.1 (mt hqueued.phase.2 hp)
        have hcalls := hqueued.written
        rw [hnone] at hcalls
        cases hcalls
        rw [if_neg hp]
        rfl
    · exact List.rel_append hqueued.written (.cons hwritten .nil)
  | @between sets p q request reply _ hleaves hrun ih =>
    obtain ⟨calls, hqueued⟩ := ih
    have hstep := ends_iff.1 (perform_ends (s := p.1) (w := p.2) request) reply q hrun
    obtain ⟨hphase, hbatch⟩ := Session.Step.leavesQueue hstep hleaves
    refine ⟨calls, hphase.trans hqueued.phase, fun h => ?_, hqueued.written⟩
    rw [hbatch (hphase.1 h), hqueued.batch (hphase.1 h)]

/-! ## Asking for the keys -/

namespace LogicalStatement

/-- An open statement answers with the keys that its session finds. -/
theorem run_generatedKeys {keys : GeneratedKeys} (hopen : s.phase ≠ .closed)
    (hkeys : (match s.keys with
      | .none => .ok .none
      | .update route native =>
        GeneratedKeys.ofRoute route.statement route.keyInfo native l.returnsKeys
      | .batch => GeneratedKeys.ofBatch l.statement s.batch.keyInfos s.batch.nativeKeys
          l.returnsKeys) = Except.ok keys) :
    l.generatedKeys.run (s, w) = (.ok keys, (s, w)) := by
  rw [generatedKeys, run_bind, run_ensureOpen hopen]
  refine Eq.trans ?_ (congrArg (fun keys : Except UnsupportedCause GeneratedKeys =>
    (Act.ofExcept (keys.mapError .unsupported) : Call W _).run (s, w)) hkeys)
  rfl

end LogicalStatement

/-- Keys that were drawn come before native keys, requested or not. -/
theorem GeneratedKeys.ofBatch_drawn (statement : Statement)
    {calls : List (List Datum × List RouteUnit)} (hcalls : calls ≠ []) (native : List (List Datum))
    (requested : Bool) :
    ofBatch statement (calls.map fun call => ⟨column, call.1, true⟩) native requested =
      .ok ⟨some column, calls.flatMap (·.1)⟩ := by
  obtain ⟨call, rest, rfl⟩ := List.exists_cons_of_ne_nil hcalls
  have hvalues : ((call :: rest).map fun call => (⟨column, call.1, true⟩ : KeyInfo)).flatMap
      (·.values) = (call :: rest).flatMap (·.1) := List.flatMap_map ..
  rw [← hvalues, List.map_cons, ofBatch, if_pos (by simp)]
  rfl

/-- Parameters may be bound at any time. -/
theorem LogicalStatement.Queues.bind (h : l.Queues sets p) (hopen : p.1.phase ≠ .closed)
    (params : List Datum) : l.Queues sets ({ p.1 with params }, p.2) := by
  obtain ⟨s, w⟩ := p
  have hset : (l.perform (.setParameters params)).run (s, w) =
      (.ok .done, ({ s with params }, w)) := by
    rw [perform, run_bind, setParameters, run_bind, run_ensureOpen hopen]
    rfl
  have hrun : (l.perform (.setParameters params)).attempt.run (s, w) =
      (.ok (.ok .done), ({ s with params }, w)) := by
    rw [attempt, run_ofRun, hset]
  exact .between h rfl hrun

theorem LogicalStatement.Queues.add_of_ok (h : l.Queues sets p) {call : Nat}
    (hrun : (l.addBatch.run p).1 = .ok call) :
    l.Queues (sets ++ [p.1.params]) (l.addBatch.run p).2 :=
  .add h (Prod.ext hrun rfl)

/-- An insert that has been executed once has written its keys, and they are answered. -/
theorem LogicalStatement.Inserted.answers {params : List Datum} {executed : Multiset RouteUnit}
    (h : Inserted k i params column executed p) (hopen : p.1.phase = .updateCompleted) :
    ∃ keys units, i.Written params column keys units ∧ k.executed p.2 = units + executed ∧
      l.generatedKeys.run p = (.ok ⟨some column, keys⟩, p) := by
  obtain ⟨route, native, keys, hkeys, hwrites, hholds⟩ := h
  refine ⟨keys, route.units, hwrites.written, hholds.executed, run_generatedKeys ?_ ?_⟩
  · rw [hopen]
    nofun
  · rw [hkeys]
    show GeneratedKeys.ofRoute route.statement route.keyInfo native l.returnsKeys = _
    rw [hwrites.keyInfo]
    rfl

/-- A batch that has been executed has written the keys of all its calls, and they are answered in
the order of the calls. -/
theorem executeBatch_answers (hl : k.Follows l) (hi : l.DrawsKeys i column)
    (hqueued : l.Queues sets p) (hp : k.sound p.2) :
    l.executeBatch.Gives p fun _ q => ∃ calls : List (List Datum × List RouteUnit),
      List.Forall₂ (fun params call => i.Written params column call.1 call.2) sets calls ∧
        k.executed q.2 = ↑(calls.flatMap (·.2)) + k.executed p.2 ∧
        l.generatedKeys.run q =
          (.ok ⟨if sets = [] then none else some column, calls.flatMap (·.1)⟩, q) := by
  obtain ⟨calls, hqueued⟩ := hqueued.hasQueued hi
  by_cases hphase : p.1.phase = .batchAccumulating
  · have hsets := hqueued.phase.1 hphase
    have hcalls : calls ≠ [] := by
      rintro rfl
      exact hsets (List.forall₂_nil_right_iff.1 hqueued.written)
    refine (executeBatch_gives hl hphase (hqueued.batch hphase) (by simpa using hcalls)
      (holds_start hp)).mono fun _ q hq => ?_
    obtain ⟨hidle, hkeys, hinfos, hholds⟩ := hq
    have hunits : (calls.map (drawnCall column)).flatMap (·.1) = calls.flatMap (·.2) :=
      List.flatMap_map ..
    have hdrawn : (calls.map (drawnCall column)).flatMap (·.2.toList) =
        calls.map fun call => ⟨column, call.1, true⟩ := by
      rw [List.flatMap_map, List.map_eq_flatMap]
      rfl
    rw [hunits] at hholds
    rw [hdrawn] at hinfos
    refine ⟨calls, hqueued.written, hholds.executed, run_generatedKeys ?_ ?_⟩
    · rw [hidle]
      nofun
    · rw [hkeys, if_neg hsets]
      show GeneratedKeys.ofBatch _ q.1.batch.keyInfos _ _ = _
      rw [hinfos]
      exact GeneratedKeys.ofBatch_drawn _ hcalls _ _
  · have hsets : sets = [] := not_not.1 (mt hqueued.phase.2 hphase)
    subst hsets
    refine (executeBatch_gives_nothing hl hphase (holds_start hp)).mono fun _ q hq => ?_
    obtain ⟨hidle, hkeys, hholds⟩ := hq
    refine ⟨[], .nil, hholds.executed.trans (zero_add _).symm, run_generatedKeys ?_ ?_⟩
    · rw [hidle]
      nofun
    · rw [hkeys]
      rfl

/-- Generated keys are the keys that were written.  After an update, after an execution without a
result set, and after a batch, however its calls were queued, the answer is one key for each row, in
the order of the calls and of the rows; each is bound as the generated column of its row in a unit
that has been executed.  Which keys the shards report and whether the statement was prepared to
return keys does not matter. -/
theorem generatedKeys_written (hl : k.Follows l) (hi : l.DrawsKeys i column) :
    (∀ s w count p, k.sound w → l.executeUpdate.run (s, w) = (.ok count, p) →
      ∃ keys units, i.Written s.params column keys units ∧
        k.executed p.2 = units + k.executed w ∧
        l.generatedKeys.run p = (.ok ⟨some column, keys⟩, p)) ∧
    (∀ s w p, k.sound w → l.execute.run (s, w) = (.ok false, p) →
      ∃ keys units, i.Written s.params column keys units ∧
        k.executed p.2 = units + k.executed w ∧
        l.generatedKeys.run p = (.ok ⟨some column, keys⟩, p)) ∧
    ∀ sets p counts q, l.Queues sets p → k.sound p.2 → l.executeBatch.run p = (.ok counts, q) →
      ∃ calls : List (List Datum × List RouteUnit),
        List.Forall₂ (fun params call => i.Written params column call.1 call.2) sets calls ∧
          k.executed q.2 = ↑(calls.flatMap (·.2)) + k.executed p.2 ∧
          l.generatedKeys.run q =
            (.ok ⟨if sets = [] then none else some column, calls.flatMap (·.1)⟩, q) := by
  refine ⟨fun s w count p hw hrun => ?_, fun s w p hw hrun => ?_, ?_⟩
  · obtain ⟨hphase, hinserted⟩ := executeUpdate_gives hl hi (holds_start hw) count p hrun
    exact hinserted.answers hphase
  · obtain ⟨hphase, hinserted⟩ := execute_gives hl hi (holds_start hw) false p hrun rfl
    exact hinserted.answers hphase
  · intro sets p counts q hqueued hp hrun
    exact executeBatch_answers hl hi hqueued hp counts q hrun

/-- Two shards that answer an insert, each with a row of its own or with a count and a key. -/
def answeringShards (rows : Bool) : Memory :=
  let response : Response := if rows then .rows ["v"] [[.null]] else .update 1 true
  ((Memory.ofShards ["ds_0", "ds_1"]).script "ds_0" "INSERT" (.ok response)).script "ds_1" "INSERT"
    (.ok response)

/-- A session with two values bound, and shards with a generator of keys. -/
def boundRows (rows : Bool) : Session × (Memory × (KeyBank × Bool)) :=
  ({ params := [.text "a", .text "b"] }, answeringShards rows, ⟨.increment 101, []⟩, false)

theorem follows_rowsStatement (m₀ : Memory) :
    (Memory.journal m₀ fun _ => True).Follows rowsStatement where
  provider := Memory.kept_journal m₀ _
  draw number w hw := by
    intro key w' hrun
    obtain rfl := congrArg Prod.snd hrun
    exact ⟨hw, rfl, rfl⟩
  token _ _ hw := ⟨hw, rfl, rfl⟩

/-- A call is queued. -/
def onceQueued : Session × (Memory × (KeyBank × Bool)) :=
  (rowsStatement.addBatch.run (boundRows false)).2

/-- Two other values are bound. -/
def boundAgain : Session × (Memory × (KeyBank × Bool)) :=
  ({ onceQueued.1 with params := [.text "c", .text "d"] }, onceQueued.2)

/-- Another call is queued. -/
def twiceQueued : Session × (Memory × (KeyBank × Bool)) :=
  (rowsStatement.addBatch.run boundAgain).2

theorem queues_twiceQueued :
    rowsStatement.Queues [[.text "a", .text "b"], [.text "c", .text "d"]] twiceQueued := by
  have hidle : (boundRows false).1.phase ≠ .batchAccumulating := nofun
  have hfirst : ((rowsStatement.addBatch.run (boundRows false)).1, onceQueued.1.phase) =
      (.ok 0, .batchAccumulating) := by cbv
  obtain ⟨hqueued, hphase⟩ := Prod.mk.inj hfirst
  have honce : rowsStatement.Queues [[.text "a", .text "b"]] onceQueued :=
    Queues.add_of_ok (.start hidle) hqueued
  have hagain : rowsStatement.Queues [[.text "a", .text "b"]] boundAgain :=
    honce.bind (by rw [hphase]; decide) _
  have hsecond : (rowsStatement.addBatch.run boundAgain).1 = .ok 1 := by cbv
  exact hagain.add_of_ok hsecond

theorem generatedKeys_written_rows :
    rowsStatement.DrawsKeys newRows "id" ∧
      (Memory.journal (answeringShards false) fun _ => True).Follows rowsStatement ∧
      (∃ p units, rowsStatement.executeUpdate.run (boundRows false) = (.ok 2, p) ∧
        newRows.Written [.text "a", .text "b"] "id" [.int64 101, .int64 102] units) ∧
      ∃ q, ∃ calls : List (List Datum × List RouteUnit),
        rowsStatement.executeBatch.run twiceQueued = (.ok [2, 2], q) ∧
        List.Forall₂ (fun params call => newRows.Written params "id" call.1 call.2)
          [[.text "a", .text "b"], [.text "c", .text "d"]] calls ∧
        calls.flatMap (·.1) = [.int64 101, .int64 102, .int64 103, .int64 104] := by
  have hi : rowsStatement.DrawsKeys newRows "id" := ⟨rfl, rfl, by cbv⟩
  have hl := follows_rowsStatement (answeringShards false)
  have hupdate : ((rowsStatement.executeUpdate.run (boundRows false)).1,
      (rowsStatement.generatedKeys.run (rowsStatement.executeUpdate.run (boundRows false)).2).1) =
        (.ok 2, .ok ⟨some "id", [.int64 101, .int64 102]⟩) := by cbv
  have hbatch : ((rowsStatement.executeBatch.run twiceQueued).1,
      (rowsStatement.generatedKeys.run (rowsStatement.executeBatch.run twiceQueued).2).1) =
        (.ok [2, 2],
          .ok ⟨some "id", [.int64 101, .int64 102, .int64 103, .int64 104]⟩) := by cbv
  have hsame : twiceQueued.2.1 = answeringShards false := by cbv
  obtain ⟨hupdate, hupdated⟩ := Prod.mk.inj hupdate
  obtain ⟨hbatch, hbatched⟩ := Prod.mk.inj hbatch
  obtain ⟨hafterUpdate, -, hafterBatch⟩ := generatedKeys_written hl hi
  obtain ⟨keys, units, hwritten, -, hkeys⟩ := hafterUpdate (boundRows false).1
    (boundRows false).2 2 _ ⟨rfl, rfl, trivial⟩ (Prod.ext hupdate rfl)
  obtain ⟨calls, hcalls, -, hkeys'⟩ := hafterBatch _ _ _ _ queues_twiceQueued
    ⟨congrArg Memory.answer hsame, congrArg Memory.outages hsame, trivial⟩ (Prod.ext hbatch rfl)
  refine ⟨hi, hl, ⟨_, units, Prod.ext hupdate rfl, ?_⟩, _, calls, Prod.ext hbatch rfl, hcalls, ?_⟩
  · rw [hkeys] at hupdated
    cases hupdated
    exact hwritten
  · rw [hkeys'] at hbatched
    injection hbatched with hbatched
    exact congrArg GeneratedKeys.values hbatched

/-- Units that return rows leave no generated keys, though the rows of the insert have theirs. -/
theorem generatedKeys_of_rows :
    rowsStatement.DrawsKeys newRows "id" ∧
      ∃ p keys, rowsStatement.execute.run (boundRows true) = (.ok true, p) ∧
        rowsStatement.generatedKeys.run p = (.ok keys, p) ∧
        keys.values.length ≠ newRows.rows.length := by
  have hrun : ((rowsStatement.execute.run (boundRows true)).1,
      (rowsStatement.execute.run (boundRows true)).2.1.phase,
      (rowsStatement.execute.run (boundRows true)).2.1.keys) =
        (.ok true, .queryCompleted, .none) := by cbv
  obtain ⟨hexecute, hopen, hkeys⟩ : _ ∧ _ ∧ _ := by simpa only [Prod.mk.injEq] using hrun
  refine ⟨⟨rfl, rfl, by cbv⟩, _, .none, Prod.ext hexecute rfl, ?_, by decide⟩
  refine run_generatedKeys (by rw [hopen]; decide) ?_
  rw [hkeys]

end Sharding
