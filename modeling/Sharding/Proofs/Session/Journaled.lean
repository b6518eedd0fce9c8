import Sharding.Proofs.Act.Giving
import Sharding.Proofs.Execute.Batched
import Sharding.Proofs.Route.Keys
import Sharding.Proofs.Session.Calls

/-!
# Calls on an insert, in a journal

What successful calls on an insert that draws its keys come to, for a journal that the logical
statement follows.

* An execution that ends without a result set has executed the units of a route, each once, and the
  session finds its keys in that route (`executeUpdate_gives`, `execute_gives`).
* A batch that is executed has executed the units of all its calls, and the session finds their keys
  in the batch (`executeBatch_gives`).

Closing what an earlier execution has left open, drawing keys and clearing the token do not show in
the journal.
-/

namespace Sharding

open Act Journal LogicalStatement

variable {W α : Type} {k : Journal W} {l : LogicalStatement W} {s : Session} {w w' : W}
  {executed : Multiset RouteUnit}

/-- The journal has what the logical statement does with its provider, and nothing else that it
does. -/
structure Journal.Follows (k : Journal W) (l : LogicalStatement W) : Prop where
  provider : k.Kept l.dispatcher.provider
  draw : ∀ generator w, k.sound w →
    (l.router.keys.draw generator).Gives w fun _ w' => k.Same w w'
  token : ∀ set w, k.sound w → k.Same w (l.dispatcher.token.put set w)

theorem Journal.Follows.draws (hl : k.Follows l) {generator : Option Nat} {keys : List Datum}
    (hdraws : l.router.keys.Draws generator w keys w') {m : Part} (hw : k.Holds m w) :
    k.Holds m w' := by
  induction hdraws with
  | none => exact hw
  | next hdraw _ ih => exact ih (hw.same (hl.draw _ _ hw.sound _ _ hdraw))

/-! ## Calls that execute nothing -/

namespace LogicalStatement

theorem ensureOpen_gives : (ensureOpen : Call W Unit).Gives (s, w) fun _ p =>
    s.phase ≠ .closed ∧ p = (s, w) := by
  have hends : (ensureOpen : Call W Unit).Ends (s, w) fun reply p =>
      reply = .ok () → s.phase ≠ .closed ∧ p = (s, w) := by
    rw [ends_ensureOpen]
    split
    · intro hrefused
      cases hrefused
    · exact fun _ => ⟨‹_›, rfl⟩
  exact hends.gives.mono fun _ _ h => h rfl

theorem run_ensureOpen (hopen : s.phase ≠ .closed) :
    (ensureOpen : Call W Unit).run (s, w) = (.ok (), (s, w)) := by
  have hclosed : s.isClosed = false := beq_eq_false_iff_ne.2 hopen
  rw [ensureOpen, run_bind]
  show Act.run (if s.isClosed = true then _ else _) (s, w) = _
  rw [if_neg (Bool.eq_false_iff.1 hclosed)]
  rfl

theorem routeCurrent_gives : l.routeCurrent.Gives (s, w) fun route p =>
    (l.router.route l.statement s.params).run w = (.ok route, p.2) ∧
      p.1 = { s with route := some route, phase := .routed } := by
  refine gives_bind_of_run rfl ?_
  have hroute : (l.router.route l.statement s.params).outside.Gives (s, w) fun route p =>
      p.1 = s ∧ (l.router.route l.statement s.params).run w = (.ok route, p.2) :=
    Gives.outside fun route w' hrun => ⟨rfl, hrun⟩
  refine hroute.bind fun route p hp => ?_
  obtain ⟨s', w'⟩ := p
  obtain ⟨rfl, hrun⟩ := hp
  exact gives_bind_of_run rfl (gives_of_run rfl ⟨hrun, rfl⟩)

theorem holds_closedRows (hl : k.Follows l) {m : Part} (hw : k.Holds m w) :
    k.Holds m (l.closedRows s w) := by
  unfold closedRows
  cases s.resultSet with
  | none => exact hw
  | some r => exact (hl.provider.keeps_closeCursor m).resultSet r hw

theorem resetResults_gives (hl : k.Follows l) (hw : k.Holds (0, executed) w) :
    l.resetResults.Gives (s, w) fun _ p => p.1 = s.givenUp ∧ k.Holds (0, executed) p.2 := by
  refine resetResults_ends.gives.mono fun _ p hp => ?_
  obtain ⟨rfl, -⟩ := hp
  exact ⟨rfl, (holds_closedRows hl hw).closeGroups hl.provider _⟩

theorem discardBatch_gives (hl : k.Follows l) (hw : k.Holds (0, executed) w) :
    l.discardBatch.Gives (s, w) fun _ p =>
      p.1 = { s with batch := {} } ∧ k.Holds (0, executed) p.2 :=
  gives_of_run rfl ⟨rfl, hw.closeGroups hl.provider _⟩

/-- A call starts from an idle session. -/
theorem beginCall_gives (hl : k.Follows l) (hw : k.Holds (0, executed) w) :
    l.beginCall.Gives (s, w) fun _ p =>
      p.1 = { s.givenUp with phase := .idle, batch := {} } ∧ k.Holds (0, executed) p.2 := by
  refine ensureOpen_gives.bind fun _ p hp => ?_
  obtain ⟨-, rfl⟩ := hp
  refine (resetResults_gives hl hw).bind fun _ p hp => ?_
  obtain ⟨s', w'⟩ := p
  obtain ⟨rfl, hw⟩ := hp
  refine (discardBatch_gives hl hw).bind fun _ p hp => ?_
  obtain ⟨s', w'⟩ := p
  obtain ⟨rfl, hw⟩ := hp
  exact gives_of_run rfl ⟨rfl, hw⟩

theorem onExecutor_gives {x : Act (StatementExecutor × W) α}
    {post : α → StatementExecutor × W → Prop} (h : x.Gives (s.executor, w) post) :
    (onExecutor x).Gives (s, w) fun a p => post a (p.1.executor, p.2) :=
  Gives.within h

theorem onBatch_gives {x : Act (BatchExecutor × W) α} {post : α → BatchExecutor × W → Prop}
    (h : x.Gives (s.batch, w) post) :
    (onBatch x).Gives (s, w) fun a p => ∃ batch, p.1 = { s with batch } ∧ post a (batch, p.2) :=
  Gives.within (h.mono fun _ q hq => ⟨q.1, rfl, hq⟩)

/-! ## Executions -/

section Executions

variable {i : Insert} {column : String}

/-- The statement is an insert that draws the keys of a column, which it does not list. -/
structure DrawsKeys (l : LogicalStatement W) (i : Insert) (column : String) : Prop where
  statement : l.statement = .insert i
  keyColumn : i.keyColumn = some column
  unlisted : i.columnPosition? column = none

/-- The statement is routed, whatever the journal. -/
theorem routeCurrent_writes (hi : l.DrawsKeys i column) :
    l.routeCurrent.Gives (s, w) fun route p =>
      ∃ keys, route.Writes i s.params column keys ∧
        l.router.keys.Draws (l.router.rule.generator? i.table) w keys p.2 ∧
        p.1 = { s with route := some route, phase := .routed } := by
  refine routeCurrent_gives.mono fun route p hp => ?_
  obtain ⟨hrun, hsession⟩ := hp
  rw [hi.statement] at hrun
  obtain ⟨keys, hwrites, hdraws⟩ := Router.writes_of_route hi.keyColumn hi.unlisted hrun
  exact ⟨keys, hwrites, hdraws, hsession⟩

/-- The units of the call are prepared and bound. -/
theorem prepareCurrent_gives (hl : k.Follows l) (hi : l.DrawsKeys i column)
    (hw : k.Holds (0, executed) w) :
    l.prepareCurrent.Gives (s, w) fun route p =>
      (∃ keys, route.Writes i s.params column keys) ∧
        StatementExecutor.Loaded k route.units executed (p.1.executor, p.2) := by
  refine (routeCurrent_writes hi).bind fun route p hp => ?_
  obtain ⟨s', w'⟩ := p
  obtain ⟨keys, hwrites, hdraws, rfl⟩ := hp
  have hw' := hl.draws hdraws hw
  refine gives_bind_of_run rfl ?_
  have hprepare := fun x => StatementExecutor.replies_prepare hl.provider route.units x hw'.sound
  simp only [hw'.executed] at hprepare
  refine (onExecutor_gives (hprepare _).gives).bind fun _ p hp => ?_
  exact gives_of_run rfl ⟨⟨keys, hwrites⟩, hp⟩

/-- The session finds the keys of an insert in a route, the units of which have been executed. -/
def Inserted (k : Journal W) (i : Insert) (params : List Datum) (column : String)
    (executed : Multiset RouteUnit) (p : Session × W) : Prop :=
  ∃ route native keys, p.1.keys = .update route native ∧ route.Writes i params column keys ∧
    k.Holds (0, route.units + executed) p.2

theorem completeUpdate_gives {route : Route} {outcomes : List UpdateOutcome} {params : List Datum}
    (hwrites : ∃ keys, route.Writes i params column keys)
    (hw : k.Holds (0, route.units + executed) w) :
    (l.completeUpdate route outcomes).Gives (s, w) fun _ p =>
      Inserted k i params column executed p := by
  obtain ⟨keys, hwrites⟩ := hwrites
  exact gives_of_run rfl ⟨route, _, keys, rfl, hwrites, hw⟩

theorem runUpdate_gives (hl : k.Follows l) (hi : l.DrawsKeys i column)
    (hw : k.Holds (0, executed) w) :
    l.runUpdate.Gives (s, w) fun _ p => Inserted k i s.params column executed p := by
  refine (prepareCurrent_gives hl hi hw).bind fun route p hp => ?_
  obtain ⟨s', w'⟩ := p
  obtain ⟨hwrites, hloaded⟩ := hp
  have hne : route.units ≠ [] := hwrites.choose_spec.units_ne_nil
  have hupdate := (StatementExecutor.replies_update hl.provider hloaded hne).gives
  refine (onExecutor_gives hupdate).bind fun outcomes p hp => ?_
  exact completeUpdate_gives hwrites hp.2

/-- What is left of a call after it has been run is no matter of its keys. -/
theorem Inserted.clearExecutor (hl : k.Follows l) {params : List Datum} {p : Session × W}
    (h : Inserted k i params column executed p) :
    l.clearExecutor.Gives p fun _ p => Inserted k i params column executed p := by
  obtain ⟨route, native, keys, hkeys, hwrites, hw⟩ := h
  exact gives_of_run rfl ⟨route, native, keys, hkeys, hwrites, hw.closeGroups hl.provider _⟩

theorem Inserted.resetToken (hl : k.Follows l) {params : List Datum} {p : Session × W}
    (h : Inserted k i params column executed p) :
    l.dispatcher.token.reset.outside.Gives p fun _ p => Inserted k i params column executed p := by
  obtain ⟨route, native, keys, hkeys, hwrites, hw⟩ := h
  refine gives_of_run rfl ⟨route, native, keys, hkeys, hwrites, ?_⟩
  exact hw.same (hl.token false p.2 hw.sound)

/-- An update that succeeds has executed the units of a route, and the keys of the session are those
of the route. -/
theorem executeUpdate_gives (hl : k.Follows l) (hi : l.DrawsKeys i column)
    (hw : k.Holds (0, executed) w) :
    l.executeUpdate.Gives (s, w) fun _ p =>
      p.1.phase = .updateCompleted ∧ Inserted k i s.params column executed p := by
  refine (beginCall_gives hl hw).bind fun _ p hp => ?_
  obtain ⟨s', w'⟩ := p
  obtain ⟨rfl, hw'⟩ := hp
  split
  · exact gives_fail _
  refine (runUpdate_gives hl hi hw').bind_attempt ?_ fun e p => ?_
  · intro count p hp
    refine (hp.clearExecutor hl).bind fun _ p hp => ?_
    refine (hp.resetToken hl).bind fun _ p hp => ?_
    exact gives_bind_of_run rfl (gives_of_run rfl ⟨rfl, hp⟩)
  · exact gives_bind fun _ _ => gives_bind fun _ _ => gives_bind fun _ _ => gives_fail e

/-- Units that return no rows have been executed as an update. -/
theorem runEither_gives (hl : k.Follows l) (hi : l.DrawsKeys i column)
    (hw : k.Holds (0, executed) w) :
    l.runEither.Gives (s, w) fun rows p =>
      rows = none → Inserted k i s.params column executed p := by
  refine (prepareCurrent_gives hl hi hw).bind fun route p hp => ?_
  obtain ⟨s', w'⟩ := p
  obtain ⟨hwrites, hloaded⟩ := hp
  have hne : route.units ≠ [] := hwrites.choose_spec.units_ne_nil
  have hexecute := (StatementExecutor.replies_execute hl.provider hloaded hne).gives
  refine (onExecutor_gives hexecute).bind fun outcomes p hp => ?_
  split
  · refine (completeUpdate_gives hwrites hp).bind fun _ p hp => ?_
    exact gives_of_run rfl fun _ => hp
  · exact gives_bind fun rows p => gives_of_run rfl fun hnone => nomatch hnone
  · exact gives_bind fun _ _ => gives_fail _

/-- An execution that ends without a result set is like an update. -/
theorem execute_gives (hl : k.Follows l) (hi : l.DrawsKeys i column)
    (hw : k.Holds (0, executed) w) :
    l.execute.Gives (s, w) fun hasRows p =>
      hasRows = false → p.1.phase = .updateCompleted ∧ Inserted k i s.params column executed p := by
  refine (beginCall_gives hl hw).bind fun _ p hp => ?_
  obtain ⟨s', w'⟩ := p
  obtain ⟨rfl, hw'⟩ := hp
  refine (runEither_gives hl hi hw').bind_attempt ?_ fun e p => ?_
  · intro rows p hp
    cases rows with
    | some r => exact gives_bind fun _ _ => gives_bind fun _ _ => gives_of_run rfl nofun
    | none =>
      refine ((hp rfl).resetToken hl).bind fun _ p hp => ?_
      refine (hp.clearExecutor hl).bind fun _ p hp => ?_
      exact gives_bind_of_run rfl (gives_of_run rfl fun _ => ⟨rfl, hp⟩)
  · exact gives_bind fun _ _ => gives_bind fun _ _ => gives_bind fun _ _ => gives_fail e

end Executions

/-! ## Batches -/

/-- Without queued calls nothing is executed. -/
theorem executeBatch_gives_nothing (hl : k.Follows l) (hphase : s.phase ≠ .batchAccumulating)
    (hw : k.Holds (0, executed) w) :
    l.executeBatch.Gives (s, w) fun _ p =>
      p.1.phase = .idle ∧ p.1.keys = .none ∧ k.Holds (0, executed) p.2 := by
  refine ensureOpen_gives.bind fun _ p hp => ?_
  obtain ⟨-, rfl⟩ := hp
  refine gives_bind_of_run rfl ?_
  rw [if_pos hphase]
  refine (resetResults_gives hl hw).bind fun _ p hp => ?_
  obtain ⟨s', w'⟩ := p
  obtain ⟨rfl, hw'⟩ := hp
  exact gives_bind_of_run rfl (gives_of_run rfl ⟨rfl, rfl, hw'⟩)

/-- A batch that succeeds has executed the units of its calls, and has the keys of all of them. -/
theorem executeBatch_gives (hl : k.Follows l) {calls : List BatchExecutor.QueuedCall}
    (hphase : s.phase = .batchAccumulating) (hbatch : s.batch = BatchExecutor.addAll {} calls)
    (hcalls : calls ≠ []) (hw : k.Holds (0, executed) w) :
    l.executeBatch.Gives (s, w) fun _ p =>
      p.1.phase = .idle ∧ p.1.keys = .batch ∧
        p.1.batch.keyInfos = calls.flatMap (·.2.toList) ∧
        k.Holds (0, calls.flatMap (·.1) + executed) p.2 := by
  have hadded := BatchExecutor.addAll_eq (show ({} : BatchExecutor).units = collapse [] from rfl)
    calls
  rw [← hbatch] at hadded
  have hunits : s.batch.units = collapse (BatchExecutor.contributionsFrom 0 calls) := by
    rw [hadded]
    rfl
  have hnumber : s.batch.calls ≠ 0 := by
    rw [hadded]
    simpa using hcalls
  refine ensureOpen_gives.bind fun _ p hp => ?_
  obtain ⟨-, rfl⟩ := hp
  refine gives_bind_of_run rfl ?_
  rw [if_neg (not_not_intro hphase)]
  have hexecute := (BatchExecutor.replies_execute hl.provider hnumber l.accumulate hw.sound).gives
  refine (onBatch_gives hexecute).bind_attempt ?_ fun e p => ?_
  · intro counts p hp
    obtain ⟨s', w'⟩ := p
    obtain ⟨batch, rfl, hp⟩ := hp
    obtain ⟨-, hkeys, hholds⟩ := (hp.resolve_left fun h => nomatch h.1).1
    rw [BatchExecutor.coe_executions hunits, hw.executed] at hholds
    have hclosed := hholds.closeGroups hl.provider batch.groups
    have hreset := hclosed.same (hl.token false _ hclosed.sound)
    refine gives_bind_of_run rfl (gives_bind_of_run rfl (gives_bind_of_run rfl
      (gives_bind_of_run rfl (gives_of_run rfl ⟨rfl, rfl, ?_, hreset⟩))))
    refine hkeys.trans ?_
    rw [hadded]
    rfl
  · exact gives_bind fun _ _ => gives_bind fun _ _ => gives_bind fun _ _ =>
      gives_bind fun _ _ => gives_fail e

end LogicalStatement

end Sharding
