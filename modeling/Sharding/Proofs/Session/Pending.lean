import Sharding.Proofs.Execute.Queued
import Sharding.Proofs.Session.Journaled
import Sharding.Proofs.Session.Results

/-!
# What a pending batch holds

In the midst of a batch, a session holds the calls that were queued since the batch was begun, and
nothing else (`batch_eq_addAll`): `LogicalStatement.Accumulates` is the part of a run from there,
with the routes of the calls that were queued, and `BatchExecutor.Collects` says what a batch has of
these routes.

Other calls may be made in between, on parameters and results, and calls may fail to be queued.
They leave the batch as it is, as long as they leave it pending (`Session.Step.pending_eq`).
-/

namespace Sharding

open Act BatchExecutor LogicalStatement

variable {W : Type} {l : LogicalStatement W} {history : History} {routes : List Route}
  {p q : Session × W} {s s' : Session} {w : W}

/-- The request is a call that has been queued. -/
def Request.queues : Request → Except Error Answer → Bool
  | addBatch, .ok _ => true
  | _, _ => false

/-- The queued calls.  Out of a batch there are none, whatever is left of the last one. -/
def Session.pending (s : Session) : BatchExecutor :=
  if s.phase = .batchAccumulating then s.batch else {}

/-- The world in which a call that is to be queued is routed.  The first call of a batch gives up
the results of the last execution before. -/
def LogicalStatement.routedIn (l : LogicalStatement W) (s : Session) (w : W) : W :=
  if s.phase = .batchAccumulating then w
  else closeGroups l.dispatcher.provider s.batch.groups
    (closeGroups l.dispatcher.provider s.executor.groups (l.closedRows s w))

/-- The calls of a run since a batch was begun, with the routes of those that were queued. -/
inductive LogicalStatement.Accumulates (l : LogicalStatement W) (p : Session × W) :
    History → List Route → Session × W → Prop
  /-- The batch is not begun. -/
  | start : p.1.phase ≠ .batchAccumulating → Accumulates l p [] [] p
  | queued {history routes q q' answer route} : Accumulates l p history routes q →
      (l.perform .addBatch).attempt.run q = (.ok (.ok answer), q') →
      (l.router.route l.statement q.1.params).run (l.routedIn q.1 q.2) = (.ok route, q'.2) →
      q'.1.phase = .batchAccumulating →
      Accumulates l p (history ++ [(.addBatch, .ok answer)]) (routes ++ [route]) q'
  | other {history routes q q' request reply} : Accumulates l p history routes q →
      (l.perform request).attempt.run q = (.ok reply, q') → request.queues reply = false →
      q'.1.phase = .batchAccumulating →
      Accumulates l p (history ++ [(request, reply)]) routes q'

theorem Request.eq_addBatch_of_queues {request : Request} {reply : Except Error Answer}
    (h : request.queues reply = true) : request = .addBatch ∧ ∃ answer, reply = .ok answer := by
  cases request <;> cases reply <;> first | exact ⟨rfl, _, rfl⟩ | cases h

/-! ## One call -/

/-- A batch that is pending after a call that was not queued was pending before. -/
theorem Session.Step.pending_eq {isQuery : Bool} {request : Request} {reply : Except Error Answer}
    (hstep : Session.Step isQuery request s reply s') (hphase : s'.phase = .batchAccumulating)
    (h : request.queues reply = false) : s'.pending = s.pending := by
  cases hstep with
  | refused | closedAgain | cancelled | bound | read | unread | keysAsked | interrupted
  | unqueued => rfl
  | failed | queried | updated | nothingQueued | flushed | closed => cases hphase
  | unbegun _ _ hnot => exact absurd hphase hnot
  | begun | queued => cases h
  | discarded =>
    by_cases hs : s.phase = .batchAccumulating
    · rw [if_pos hs] at hphase
      cases hphase
    · rw [if_neg hs] at hphase
      exact absurd hphase hs

namespace LogicalStatement

/-- The call is routed, and `f` adds the route to the batch. -/
theorem routeCurrent_gives_added {f : Route → Call W Nat}
    (hf : ∀ route p, (f route).run p = (.ok (p.1.batch.add route.units route.keyInfo).1,
      ({ p.1 with
          batch := (p.1.batch.add route.units route.keyInfo).2
          params := []
          phase := .batchAccumulating }, p.2))) :
    (l.routeCurrent >>= f).Gives (s, w) fun _ p => ∃ route,
      (l.router.route l.statement s.params).run w = (.ok route, p.2) ∧
        p.1.phase = .batchAccumulating ∧
        p.1.batch = (s.batch.add route.units route.keyInfo).2 := by
  refine routeCurrent_gives.bind fun route p hp => ?_
  obtain ⟨s', w'⟩ := p
  obtain ⟨hrun, rfl⟩ := hp
  exact gives_of_run (hf route _) ⟨route, hrun, rfl, rfl⟩

/-- A call that is queued is added to the calls that are. -/
theorem addBatch_gives_route : l.addBatch.Gives (s, w) fun _ p => ∃ route,
    (l.router.route l.statement s.params).run (l.routedIn s w) = (.ok route, p.2) ∧
      p.1.phase = .batchAccumulating ∧
      p.1.batch = (s.pending.add route.units route.keyInfo).2 := by
  refine ensureOpen_gives.bind fun _ p hp => ?_
  obtain ⟨-, rfl⟩ := hp
  dsimp only
  split
  · exact gives_fail _
  refine gives_bind_of_run rfl ?_
  dsimp only
  by_cases hphase : s.phase = .batchAccumulating
  · rw [if_neg (not_not_intro hphase), routedIn, if_pos hphase, Session.pending, if_pos hphase]
    exact routeCurrent_gives_added fun _ _ => rfl
  · rw [if_pos hphase, routedIn, if_neg hphase, Session.pending, if_neg hphase]
    refine resetResults_ends.gives.bind fun _ p hp => ?_
    obtain ⟨rfl, -⟩ := hp
    exact gives_bind_of_run rfl (routeCurrent_gives_added fun _ _ => rfl)

theorem addBatch_queues {answer : Answer}
    (hrun : (l.perform .addBatch).attempt.run p = (.ok (.ok answer), q)) : ∃ route,
      (l.router.route l.statement p.1.params).run (l.routedIn p.1 p.2) = (.ok route, q.2) ∧
        q.1.phase = .batchAccumulating ∧
        q.1.batch = (p.1.pending.add route.units route.keyInfo).2 := by
  have hqueued : (l.perform .addBatch).Gives p fun _ q => ∃ route,
      (l.router.route l.statement p.1.params).run (l.routedIn p.1 p.2) = (.ok route, q.2) ∧
        q.1.phase = .batchAccumulating ∧
        q.1.batch = (p.1.pending.add route.units route.keyInfo).2 :=
    addBatch_gives_route.bind fun _ _ hq => gives_of_run rfl hq
  exact hqueued.attempt _ _ hrun answer rfl

/-- A call that is not routed leaves the session as it is. -/
theorem session_of_routeCurrent_error {stop : Stop}
    (hrun : l.routeCurrent.run (s, w) = (.error stop, p)) : p.1 = s := by
  rw [routeCurrent, run_bind] at hrun
  change (outside (l.router.route l.statement s.params) >>= _ : Call W Route).run (s, w) = _
    at hrun
  rw [run_bind, outside, zoom, run_ofRun] at hrun
  rcases hroute : (l.router.route l.statement s.params).run w with ⟨stop | route, w'⟩
  · dsimp only at hrun
    rw [hroute] at hrun
    cases hrun
    rfl
  · dsimp only at hrun
    rw [hroute] at hrun
    cases hrun

/-- In the midst of a batch, a call that stops short before it is queued leaves the session as it
is. -/
theorem session_of_addBatch_error {stop : Stop} (hphase : s.phase = .batchAccumulating)
    (hrun : l.addBatch.run (s, w) = (.error stop, p)) : p.1 = s := by
  rw [addBatch, run_bind, run_ensureOpen (by rw [hphase]; decide)] at hrun
  dsimp only at hrun
  split at hrun
  · cases hrun
    rfl
  · rw [run_bind] at hrun
    change (if s.phase ≠ .batchAccumulating then _ else _ : Call W Nat).run (s, w) = _ at hrun
    rw [if_neg (not_not_intro hphase), run_bind] at hrun
    rcases hroute : l.routeCurrent.run (s, w) with ⟨stop | route, q⟩
    · rw [hroute] at hrun
      cases hrun
      exact session_of_routeCurrent_error hroute
    · -- With the route at hand, nothing is left that could fail.
      rw [hroute] at hrun
      cases hrun

end LogicalStatement

/-! ## A run -/

/-- The part of a run since the current batch was begun, if there is one. -/
theorem Runs.accumulates (h : Runs l history p q) (hp : p.1.phase ≠ .batchAccumulating) :
    ∃ before since routes r, history = before ++ since ∧ Runs l before p r ∧
      l.Accumulates r since routes q := by
  induction h with
  | nil => exact ⟨[], [], [], _, rfl, .nil, .start hp⟩
  | @snoc history p q q' request reply h hrun ih =>
    by_cases hphase : q'.1.phase = .batchAccumulating
    · obtain ⟨before, since, routes, r, rfl, hbefore, hsince⟩ := ih hp
      cases hqueues : request.queues reply with
      | true =>
        obtain ⟨rfl, answer, rfl⟩ := Request.eq_addBatch_of_queues hqueues
        obtain ⟨route, hroute, -⟩ := addBatch_queues hrun
        exact ⟨before, since ++ [_], routes ++ [route], r, List.append_assoc .., hbefore,
          hsince.queued hrun hroute hphase⟩
      | false =>
        exact ⟨before, since ++ [_], routes, r, List.append_assoc .., hbefore,
          hsince.other hrun hqueues hphase⟩
    · exact ⟨_, [], [], q', (List.append_nil _).symm, h.snoc hrun, .start hphase⟩

/-- The queued calls are those that were queued since the batch was begun. -/
theorem LogicalStatement.Accumulates.pending_eq (h : l.Accumulates p history routes q) :
    q.1.pending = addAll {} (routes.map fun route => (route.units, route.keyInfo)) := by
  induction h with
  | start hphase => exact if_neg hphase
  | @queued history routes q q' answer route _ hrun hroute hphase ih =>
    obtain ⟨route', hroute', -, hbatch⟩ := addBatch_queues hrun
    rw [hroute] at hroute'
    cases hroute'
    rw [Session.pending, if_pos hphase, hbatch, ih, List.map_append, addAll, addAll,
      List.foldl_append]
    rfl
  | @other history routes q q' request reply _ hrun hqueues hphase ih =>
    have hstep := ends_iff.1 (perform_ends (s := q.1) (w := q.2) request) reply q' hrun
    exact (hstep.pending_eq hphase hqueues).trans ih

/-- In the midst of a batch, the batch is what comes of adding, to an empty one, the routes of the
calls that were queued since it was begun: it collects their units, their parameters and the keys of
their rows.  A call that cannot be queued leaves the session as it is. -/
theorem batch_eq_addAll {w₀ : W} (h : Runs l history ({}, w₀) (s, w))
    (hphase : s.phase = .batchAccumulating) :
    (∃ before since routes r, history = before ++ since ∧ Runs l before ({}, w₀) r ∧
        l.Accumulates r since routes (s, w) ∧
        s.batch = addAll {} (routes.map fun route => (route.units, route.keyInfo)) ∧
        s.batch.Collects (routes.map fun route => (route.units, route.keyInfo))) ∧
      ∀ stop p, l.addBatch.run (s, w) = (.error stop, p) → p.1 = s := by
  obtain ⟨before, since, routes, r, hhistory, hbefore, hsince⟩ := h.accumulates nofun
  have hpending := hsince.pending_eq
  rw [Session.pending, if_pos hphase] at hpending
  have hcollects : s.batch.Collects (routes.map fun route => (route.units, route.keyInfo)) := by
    rw [hpending]
    exact collects_addAll _
  exact ⟨⟨before, since, routes, r, hhistory, hbefore, hsince, hpending, hcollects⟩,
    fun _ _ hrun => session_of_addBatch_error hphase hrun⟩

/-- Two rows without their keys. -/
def newRows : Insert where
  text := "INSERT INTO t (v) VALUES (?), (?)"
  table := "t"
  columns := ["v"]
  rows := [[.parameter 0], [.parameter 1]]
  keyColumn := some "id"

/-- The insert of two rows, spread over two shards in memory by their keys. -/
def rowsStatement : LogicalStatement (Memory × (KeyBank × Bool)) where
  statement := .insert newRows
  router :=
    { rule := { tables := [{ name := "t"
                             nodes := [⟨"ds_0", "t_0"⟩, ⟨"ds_1", "t_1"⟩]
                             strategy := some ⟨"id", .modulo⟩ }] }
      keys := ⟨fun number => (KeyBank.source.draw number).zoom (·.2.1) fun b w => (w.1, b, w.2.2)⟩ }
  dispatcher :=
    { provider := Memory.beside (KeyBank × Bool)
      token := CancelToken.beside ⟨Prod.snd, fun b e => (e.1, b), fun _ _ => rfl⟩
      workers := 2
      connections := 1
      turns := fun _ => [1, 0, 1] }
  maxRows := 100
  accumulate := true
  returnsKeys := false

/-- Two shards in memory without rows, and a generator of keys. -/
def emptyShards : Memory × (KeyBank × Bool) :=
  (Memory.ofShards ["ds_0", "ds_1"], ⟨.increment 101, []⟩, false)

/-- A call is queued, another one lacks its parameters, and a third one is queued. -/
def twoCalls : List Request :=
  [.setParameters [.text "a", .text "b"], .addBatch, .clearParameters, .addBatch,
    .setParameters [.text "c", .text "d"], .addBatch]

/-- What comes of these calls. -/
def queuedTwice : History × (Session × (Memory × (KeyBank × Bool))) :=
  rowsStatement.play twoCalls ({}, emptyShards)

/-- The keys 103 and 104 have gone to the call that could not be queued. -/
theorem batch_eq_addAll_twice :
    queuedTwice.2.1.phase = .batchAccumulating ∧
      ∃ before since routes r, queuedTwice.1 = before ++ since ∧
        rowsStatement.Accumulates r since routes queuedTwice.2 ∧ routes.length = 2 ∧
        queuedTwice.2.1.batch =
          addAll {} (routes.map fun route => (route.units, route.keyInfo)) ∧
        queuedTwice.2.1.batch.Collects (routes.map fun route => (route.units, route.keyInfo)) ∧
        queuedTwice.2.1.batch.units.map BatchUnit.kind =
          [("ds_1", "INSERT INTO t_1 (v, id) VALUES (?, ?)"),
            ("ds_0", "INSERT INTO t_0 (v, id) VALUES (?, ?)")] ∧
        queuedTwice.2.1.batch.units.map (·.entries) =
          [[⟨[.text "a", .int64 101], 0⟩, ⟨[.text "c", .int64 105], 1⟩],
            [⟨[.text "b", .int64 102], 0⟩, ⟨[.text "d", .int64 106], 1⟩]] ∧
        queuedTwice.2.1.batch.keyInfos =
          [⟨"id", [.int64 101, .int64 102], true⟩, ⟨"id", [.int64 105, .int64 106], true⟩] ∧
        ∃ stop p, rowsStatement.addBatch.run queuedTwice.2 = (.error stop, p) ∧
          p.1 = queuedTwice.2.1 := by
  have hrun : (queuedTwice.2.1.phase, queuedTwice.2.1.batch.calls) =
      (.batchAccumulating, 2) := by cbv
  have hkinds : queuedTwice.2.1.batch.units.map BatchUnit.kind =
      [("ds_1", "INSERT INTO t_1 (v, id) VALUES (?, ?)"),
        ("ds_0", "INSERT INTO t_0 (v, id) VALUES (?, ?)")] := by cbv
  have hentries : queuedTwice.2.1.batch.units.map (·.entries) =
      [[⟨[.text "a", .int64 101], 0⟩, ⟨[.text "c", .int64 105], 1⟩],
        [⟨[.text "b", .int64 102], 0⟩, ⟨[.text "d", .int64 106], 1⟩]] := by cbv
  have hkeys : queuedTwice.2.1.batch.keyInfos =
      [⟨"id", [.int64 101, .int64 102], true⟩, ⟨"id", [.int64 105, .int64 106], true⟩] := by cbv
  have hunbound : (rowsStatement.addBatch.run queuedTwice.2).1 =
      .error (.error (.routing (.unboundParameter 0 0))) := by cbv
  obtain ⟨hphase, hcalls⟩ := Prod.mk.inj hrun
  have h : Runs rowsStatement queuedTwice.1 ({}, emptyShards)
      (queuedTwice.2.1, queuedTwice.2.2) := by
    rw [Prod.mk.eta]
    exact runs_play rowsStatement twoCalls ({}, emptyShards)
  obtain ⟨⟨before, since, routes, r, hhistory, -, hsince, hbatch, hcollects⟩, herror⟩ :=
    batch_eq_addAll h hphase
  have hlength : routes.length = 2 := by
    rw [← hcalls, hcollects.count, List.length_map]
  rw [Prod.mk.eta] at hsince herror
  rcases hstops : rowsStatement.addBatch.run queuedTwice.2 with ⟨reply, p⟩
  obtain rfl : reply = _ := (congrArg Prod.fst hstops).symm.trans hunbound
  exact ⟨hphase, before, since, routes, r, hhistory, hsince, hlength, hbatch, hcollects, hkinds,
    hentries, hkeys, _, p, rfl, herror _ p hstops⟩

end Sharding
