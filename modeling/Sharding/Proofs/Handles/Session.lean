import Sharding.Proofs.Handles.Execution
import Sharding.Proofs.Session.Phases

/-!
# Handles of a logical statement

A session has the statements of its executors and the cursors of its result set.  Every call on a
logical statement keeps it that way, whatever it answers (`keeps_perform`): whatever a call acquires
on its way is released where it fails.
-/

namespace Sharding

open Act LogicalStatement

variable {W α : Type} {b : Books W} {l : LogicalStatement W} {s : Session} {w : W} {f : Handles}

/-- What a logical statement does with the world apart from its physical calls is no matter of the
books. -/
structure Books.Follows (b : Books W) (l : LogicalStatement W) : Prop where
  provider : b.Kept l.dispatcher.provider
  token : ∀ set w, b.Same w (l.dispatcher.token.put set w)
  keys : ∀ generator, b.Quiet (l.router.keys.draw generator)

/-- The cursors of the current result set. -/
def Session.rowHandles (s : Session) : Handles :=
  match s.resultSet with
  | none => 0
  | some r => r.handles

/-- The handles that a session has. -/
def Session.handles (s : Session) : Handles :=
  s.executor.handles + (s.batch.handles + s.rowHandles)

/-! ## Calls without physical statements -/

theorem Books.quiet_insert (hl : b.Follows l) (i : Insert) (params : List Datum) :
    b.Quiet (i.route l.router.rule l.router.keys params) := by
  have hkeys : b.Quiet (i.keys l.router.rule l.router.keys params) := by
    unfold Insert.keys
    split
    · exact quiet_pure _
    · split
      · exact (quiet_ofExcept _).bind fun _ => quiet_pure _
      · exact (quiet_mapM fun _ _ => hl.keys _).bind fun _ => quiet_pure _
  unfold Insert.route
  by_cases hempty : i.rows.isEmpty = true
  · rw [if_pos hempty]
    exact quiet_fail_bind _
  · rw [if_neg hempty]
    dsimp only
    split
    · exact quiet_fail _
    · exact hkeys.bind fun info => (quiet_ofExcept _).bind fun units => quiet_pure _

theorem Books.quiet_route (hl : b.Follows l) (statement : Statement) (params : List Datum) :
    b.Quiet (l.router.route statement params) := by
  have hrendered : b.Quiet (l.router.rendered statement params) := by
    cases statement with
    | insert i => exact quiet_insert hl i params
    | query q => exact (quiet_ofExcept _).bind fun _ => quiet_pure _
    | update c => exact (quiet_ofExcept _).bind fun _ => quiet_pure _
    | delete c => exact (quiet_ofExcept _).bind fun _ => quiet_pure _
    | other c => exact (quiet_ofExcept _).bind fun _ => quiet_pure _
  refine hrendered.bind ?_
  rintro ⟨units, keyInfo⟩
  dsimp only
  split
  · exact quiet_fail _
  · exact quiet_pure _

theorem Books.quiet_reset (hl : b.Follows l) : b.Quiet l.dispatcher.token.reset :=
  fun w => hl.token false w

namespace LogicalStatement

/-- A call that changes what a session has only as far as it changes the world. -/
abbrev Keeps (b : Books W) (x : Call W α) : Prop :=
  x.Yields (b.With Session.handles) 0 fun _ => 0

theorem keeps_iff {x : Call W α} : Keeps b x ↔ ∀ s w f, b.Has (s.handles + f) w →
    x.Ends (s, w) fun _ p => b.Has (p.1.handles + f) p.2 := by
  have hleft : ∀ f (reply : Except Error α) p,
      Left (b.With Session.handles) (fun _ => 0) f reply p ↔ b.Has (p.1.handles + f) p.2 := by
    rintro f (e | a) p
    · exact Iff.rfl
    · rw [Left, zero_add]
      exact Iff.rfl
  refine ⟨fun h s w f hw => (h (s, w) f ?_).mono fun reply p hp => (hleft f reply p).1 hp,
    fun h p f hw => (h p.1 p.2 f ?_).mono fun reply p hp => (hleft f reply p).2 hp⟩
  · rw [zero_add]
    exact hw
  · rwa [zero_add] at hw

theorem keeps_update {g : Session → Session} (h : ∀ s, (g s).handles = s.handles) :
    Keeps b (update g) :=
  yields_update fun s => by rw [h]

theorem keeps_enter (phase : Phase) : Keeps b (enter phase : Call W Unit) :=
  keeps_update fun _ => rfl

theorem yields_onExecutor {m : Handles} {r : α → Handles} {x : Act (StatementExecutor × W) α}
    (h : x.Yields (b.With StatementExecutor.handles) m r) :
    (onExecutor x).Yields (b.With Session.handles) m r :=
  h.within fun s => ⟨s.batch.handles + s.rowHandles, rfl, fun _ => rfl⟩

theorem yields_onBatch {m : Handles} {r : α → Handles} {x : Act (BatchExecutor × W) α}
    (h : x.Yields (b.With BatchExecutor.handles) m r) :
    (onBatch x).Yields (b.With Session.handles) m r :=
  h.within fun s => ⟨s.executor.handles + s.rowHandles, add_left_comm .., fun _ => add_left_comm ..⟩

theorem keeps_ensureOpen : Keeps b (ensureOpen : Call W Unit) := by
  rintro ⟨s, w⟩ f hw
  rw [zero_add] at hw
  rw [ends_ensureOpen]
  split
  · exact hw
  · rw [Left, zero_add]
    exact hw

/-- Giving up the results closes the cursors and the statements, also when a close fails. -/
theorem keeps_resetResults (hl : b.Follows l) : Keeps b l.resetResults := by
  rintro ⟨s, w⟩ f hw
  replace hw : b.Has (s.handles + f) w := by rwa [zero_add] at hw
  have hrows : b.Has (s.executor.handles + (s.batch.handles + f)) (l.closedRows s w) := by
    unfold Session.handles Session.rowHandles at hw
    unfold closedRows
    cases hrows : s.resultSet with
    | none =>
      rw [hrows] at hw
      simpa only [add_assoc, add_zero] using hw
    | some r =>
      rw [hrows] at hw
      refine (r.has_close hl.provider.closeCursor ?_).2
      have hsum : r.handles + (s.executor.handles + (s.batch.handles + f)) =
          s.executor.handles + (s.batch.handles + r.handles) + f := by abel
      rw [hsum]
      exact hw
  refine resetResults_ends.mono fun reply p hp => ?_
  obtain ⟨rfl, -⟩ := hp
  have hclosed := hrows.closeGroups hl.provider
  have hgiven : s.givenUp.handles = s.batch.handles := by
    show groupHandles [] + (s.batch.handles + 0) = s.batch.handles
    rw [show groupHandles [] = 0 from rfl, zero_add, add_zero]
  rw [left_iff, partOf_zero, zero_add]
  show b.Has (s.givenUp.handles + f) _
  rw [hgiven]
  exact hclosed

theorem keeps_clearKeys :
    Keeps b (onBatch (Act.update BatchExecutor.clearKeys) : Call W Unit) :=
  yields_onBatch (yields_update fun _ => rfl)

theorem keeps_discardBatch (hl : b.Follows l) : Keeps b l.discardBatch :=
  (yields_onBatch (BatchExecutor.yields_clear hl.provider)).bind fun _ => keeps_clearKeys

theorem keeps_reset (hl : b.Follows l) : Keeps b l.dispatcher.token.reset.outside :=
  (Books.quiet_reset hl).yields.outside

theorem keeps_clearExecutor (hl : b.Follows l) : Keeps b l.clearExecutor :=
  yields_onExecutor (StatementExecutor.yields_clear hl.provider)

theorem keeps_beginCall (hl : b.Follows l) : Keeps b l.beginCall := by
  refine keeps_ensureOpen.bind fun _ => ?_
  refine (keeps_resetResults hl).bind fun _ => ?_
  exact (keeps_discardBatch hl).bind fun _ => keeps_enter .idle

/-! ## Executions -/

theorem keeps_routeCurrent (hl : b.Follows l) : Keeps b l.routeCurrent := by
  refine yields_state fun s w f hw => ?_
  have hrest : Keeps b (do
      let route ← (l.router.route l.statement s.params).outside
      Act.update fun s : Session => { s with route := some route, phase := .routed }
      return route) :=
    (Books.quiet_route hl _ _).yields.outside.bind fun route =>
      (keeps_update fun _ => rfl).bind fun _ => yields_pure rfl
  exact hrest (s, w) f hw

theorem keeps_prepareCurrent (hl : b.Follows l) : Keeps b l.prepareCurrent := by
  refine (keeps_routeCurrent hl).bind fun route => ?_
  refine (keeps_enter .executing).bind fun _ => ?_
  exact (yields_onExecutor (StatementExecutor.yields_prepare hl.provider _)).bind fun _ =>
    yields_pure rfl

theorem yields_merge (hl : b.Follows l) (statement : Statement) (sources : List Source) :
    (l.merge statement sources).Yields b.Has (Source.allHandles sources) ResultSet.handles := by
  intro w f hw
  have hmerge := has_mergeSources hl.provider.closeCursor l.maxRows statement hw
  unfold Ends merge
  rw [run_ofRun]
  rcases hrun : mergeSources l.dispatcher.provider.closeCursor l.maxRows statement sources w with
    ⟨⟨e | _⟩ | r, w'⟩
  all_goals
    rw [hrun] at hmerge
    exact hmerge

theorem yields_runQuery (hl : b.Follows l) :
    l.runQuery.Yields (b.With Session.handles) 0 ResultSet.handles := by
  refine (keeps_prepareCurrent hl).bind fun route => ?_
  refine (yields_onExecutor (StatementExecutor.yields_query hl.provider)).bind fun sources => ?_
  exact (yields_merge hl _ _).outside

theorem keeps_completeUpdate (route : Route) (outcomes : List UpdateOutcome) :
    Keeps b (l.completeUpdate route outcomes) :=
  (keeps_update fun _ => rfl).bind fun _ => yields_pure rfl

theorem keeps_runUpdate (hl : b.Follows l) : Keeps b l.runUpdate := by
  refine (keeps_prepareCurrent hl).bind fun route => ?_
  refine (yields_onExecutor (StatementExecutor.yields_update hl.provider)).bind fun outcomes => ?_
  exact keeps_completeUpdate _ _

/-- The cursors of some outcomes are those of the sources among them. -/
theorem sum_outcomes (outcomes : List Outcome) :
    (outcomes.map Outcome.handles).sum = Source.allHandles (Outcome.sources outcomes) := by
  induction outcomes with
  | nil => rfl
  | cons outcome outcomes ih =>
    rw [List.map_cons, List.sum_cons, ih]
    cases outcome with
    | rows s => rfl
    | update u => exact zero_add _

/-- The cursors of a result set, if there is one. -/
def eitherHandles : Option ResultSet → Handles
  | none => 0
  | some r => r.handles

theorem yields_runEither (hl : b.Follows l) :
    l.runEither.Yields (b.With Session.handles) 0 eitherHandles := by
  refine (keeps_prepareCurrent hl).bind fun route => ?_
  refine (yields_onExecutor (StatementExecutor.yields_execute hl.provider)).bind fun outcomes => ?_
  rw [sum_outcomes]
  split
  next hsources =>
    rw [hsources]
    exact (keeps_completeUpdate _ _).bind fun _ => yields_pure rfl
  next =>
    exact (yields_merge hl _ _).outside.bind fun r => yields_pure rfl
  next =>
    refine Yields.bind (yields_effect ?_ : Yields (b.With Session.handles) _ _ fun _ => 0)
      fun _ => yields_fail _
    rintro ⟨s, w⟩ f hw
    show b.Has (s.handles + (0 + f)) _
    rw [zero_add]
    have hw : b.Has (s.handles + (Source.allHandles (Outcome.sources outcomes) + f)) w := hw
    rw [add_left_comm] at hw
    exact holds_discard (fun source w f hw => hw.closeSource hl.provider.closeCursor) hw

/-- A call that fails late closes its statements. -/
theorem keeps_giveUp (hl : b.Follows l) (e : Error) : Keeps b (do
    l.clearExecutor
    enter .idle
    Act.fail e : Call W α) :=
  (keeps_clearExecutor hl).bind fun _ => (keeps_enter _).bind fun _ => yields_fail e

/-- A result set becomes the current one, where there is none. -/
theorem has_completeQuery (hl : b.Follows l) {r : ResultSet} (hrows : s.resultSet = none)
    (h : b.Has (s.handles + (r.handles + f)) w) :
    b.Has (Session.handles { s with phase := .queryCompleted, resultSet := some r } + f)
      (l.dispatcher.token.put false w) := by
  refine Books.Has.same ?_ (hl.token false w)
  have hsum : Session.handles { s with phase := .queryCompleted, resultSet := some r } + f =
      s.handles + (r.handles + f) := by
    unfold Session.handles Session.rowHandles
    rw [hrows]
    show s.executor.handles + (s.batch.handles + r.handles) + f =
      s.executor.handles + (s.batch.handles + 0) + (r.handles + f)
    abel
  rw [hsum]
  exact h

theorem keeps_executeQuery (hl : b.Follows l) : Keeps b l.executeQuery := by
  rw [keeps_iff]
  intro s w f hw
  refine (beginCall_ends.and (keeps_iff.1 (keeps_beginCall hl) s w f hw)).bind ?_ fun e p h => h.2
  rintro _ ⟨_, w'⟩ ⟨⟨hopen, rfl⟩, hw'⟩
  split
  · exact hw'
  · refine (runQuery_ends.and (yields_runQuery hl _ f ?_)).bind_attempt ?_
    · rw [zero_add]
      exact hw'
    · rintro reply ⟨_, w''⟩ ⟨⟨phase, route, executor, rfl⟩, hleft⟩
      cases reply with
      | ok r => exact has_completeQuery hl rfl hleft
      | error e =>
        exact keeps_iff.1 ((keeps_reset hl).bind fun _ => keeps_giveUp hl e) _ _ _ hleft

theorem keeps_executeUpdate (hl : b.Follows l) : Keeps b l.executeUpdate := by
  refine (keeps_beginCall hl).bind fun _ => ?_
  split
  · exact yields_fail _
  · refine (keeps_runUpdate hl).attempt.yields.bind fun reply => ?_
    rw [partOf_zero]
    refine (keeps_clearExecutor hl).bind fun _ => (keeps_reset hl).bind fun _ => ?_
    cases reply with
    | ok count => exact (keeps_enter _).bind fun _ => yields_pure rfl
    | error e => exact (keeps_enter _).bind fun _ => yields_fail e

theorem keeps_execute (hl : b.Follows l) : Keeps b l.execute := by
  rw [keeps_iff]
  intro s w f hw
  refine (beginCall_ends.and (keeps_iff.1 (keeps_beginCall hl) s w f hw)).bind ?_ fun e p h => h.2
  rintro _ ⟨_, w'⟩ ⟨⟨hopen, rfl⟩, hw'⟩
  refine (runEither_ends.and (yields_runEither hl _ f ?_)).bind_attempt ?_
  · rw [zero_add]
    exact hw'
  · rintro (e | _ | r) ⟨s', w''⟩ ⟨hs', hleft⟩
    · exact keeps_iff.1 ((keeps_reset hl).bind fun _ => keeps_giveUp hl e) _ _ _ hleft
    · have hrest : Keeps b (do
          l.dispatcher.token.reset.outside
          l.clearExecutor
          enter .updateCompleted
          return false) :=
        (keeps_reset hl).bind fun _ => (keeps_clearExecutor hl).bind fun _ =>
          (keeps_enter _).bind fun _ => yields_pure rfl
      refine keeps_iff.1 hrest _ _ _ ?_
      rw [Left, eitherHandles, zero_add] at hleft
      exact hleft
    · obtain ⟨phase, route, executor, rfl⟩ := hs'
      exact has_completeQuery hl rfl hleft

/-! ## Batches -/

theorem keeps_addBatch (hl : b.Follows l) : Keeps b l.addBatch := by
  refine keeps_ensureOpen.bind fun _ => ?_
  split
  · exact yields_fail _
  · refine yields_state fun s w f hw => ?_
    by_cases hphase : s.phase = .batchAccumulating
    · rw [if_neg (not_not_intro hphase)]
      refine Yields.ends ?_ hw
      exact (keeps_routeCurrent hl).bind fun route => keeps_iff.2 fun s w f hw => hw
    · rw [if_pos hphase]
      refine Yields.ends ?_ hw
      refine (keeps_resetResults hl).bind fun _ => (keeps_discardBatch hl).bind fun _ => ?_
      exact (keeps_routeCurrent hl).bind fun route => keeps_iff.2 fun s w f hw => hw

theorem keeps_executeBatch (hl : b.Follows l) : Keeps b l.executeBatch := by
  refine keeps_ensureOpen.bind fun _ => yields_state fun s w f hw => ?_
  by_cases hphase : s.phase = .batchAccumulating
  · rw [if_neg (not_not_intro hphase)]
    refine Yields.ends ?_ hw
    refine (yields_onBatch (BatchExecutor.yields_execute hl.provider _)).attempt.yields.bind
      fun reply => ?_
    rw [partOf_zero]
    refine (yields_onBatch (BatchExecutor.yields_clear hl.provider)).bind fun _ => ?_
    refine (keeps_reset hl).bind fun _ => (keeps_enter _).bind fun _ => ?_
    cases reply with
    | ok counts => exact (keeps_update fun _ => rfl).bind fun _ => yields_pure rfl
    | error e => exact keeps_clearKeys.bind fun _ => yields_fail e
  · rw [if_pos hphase]
    refine Yields.ends ?_ hw
    exact (keeps_resetResults hl).bind fun _ => (keeps_enter _).bind fun _ => yields_pure rfl

theorem keeps_clearBatch (hl : b.Follows l) : Keeps b l.clearBatch := by
  refine keeps_ensureOpen.bind fun _ => (keeps_discardBatch hl).bind fun _ =>
    yields_state fun s w f hw => ?_
  by_cases hphase : s.phase = .batchAccumulating
  · rw [if_pos hphase]
    exact keeps_enter .idle (s, w) f hw
  · rw [if_neg hphase]
    exact hw

/-! ## Parameters, results and the close -/

theorem keeps_setParameters (params : List Datum) :
    Keeps b (setParameters params : Call W Unit) :=
  keeps_ensureOpen.bind fun _ => keeps_update fun _ => rfl

theorem keeps_setParameter (index : Nat) (value : Datum) :
    Keeps b (setParameter index value : Call W Unit) :=
  keeps_ensureOpen.bind fun _ => keeps_update fun _ => rfl

/-- The result set that is answered is the current one. -/
theorem resultSet_current : (resultSet : Call W ResultSet).Ends (s, w) fun reply p =>
    p = (s, w) ∧ ∀ r, reply = .ok r → s.resultSet = some r := by
  rw [resultSet, ends_bind, ends_ensureOpen]
  split
  · refine ⟨rfl, ?_⟩
    rintro _ ⟨⟩
  · dsimp only
    rw [ends_bind, ends_state]
    dsimp only
    split
    next r _ hrows =>
      refine ⟨rfl, ?_⟩
      rintro _ ⟨⟩
      exact hrows
    next =>
      refine ⟨rfl, ?_⟩
      rintro _ ⟨⟩

theorem keeps_resultSet : Keeps b (resultSet : Call W ResultSet) := by
  rw [keeps_iff]
  intro s w f hw
  refine resultSet_current.mono ?_
  rintro reply _ ⟨rfl, -⟩
  exact hw

/-- Reading a result set opens nothing. -/
theorem keeps_onResultSet {g : ResultSet → W → Except Error α × ResultSet × W}
    (h : ∀ r w f, b.Has (r.handles + f) w → b.Has ((g r w).2.1.handles + f) (g r w).2.2) :
    Keeps b (onResultSet g) := by
  rw [keeps_iff]
  intro s w f hw
  refine resultSet_current.bind ?_ ?_
  · rintro r _ ⟨rfl, hrows⟩
    have hsum : ∀ r' : ResultSet, Session.handles { s with resultSet := some r' } + f =
        r'.handles + (s.executor.handles + (s.batch.handles + f)) := fun r' => by
      show s.executor.handles + (s.batch.handles + r'.handles) + f = _
      abel
    have hs : { s with resultSet := some r } = s := by rw [← hrows r rfl]
    rw [← hs, hsum] at hw
    refine ends_ofStep.2 ?_
    show b.Has (Session.handles { s with resultSet := some (g r w).2.1 } + f) (g r w).2.2
    rw [hsum]
    exact h r w _ hw
  · rintro e _ ⟨rfl, -⟩
    exact hw

theorem keeps_generatedKeys : Keeps b l.generatedKeys := by
  refine keeps_ensureOpen.bind fun _ => yields_state fun s w f hw => ?_
  exact yields_ofExcept _ (s, w) f hw

theorem keeps_close (hl : b.Follows l) : Keeps b l.close := by
  refine yields_state fun s w f hw => ?_
  split
  · exact hw
  · refine Yields.ends ?_ hw
    refine (keeps_resetResults hl).attempt.yields.bind fun reply => ?_
    rw [partOf_zero]
    refine (keeps_discardBatch hl).bind fun _ => ?_
    refine Yields.bind (keeps_update ?_) fun _ => yields_ofExcept _
    exact fun _ => rfl

/-! ## All calls -/

/-- Every call keeps the handles of the session, whatever it answers. -/
theorem keeps_perform (hl : b.Follows l) (request : Request) : Keeps b (l.perform request) := by
  have hc := hl.provider.closeCursor
  cases request with
  | setParameter index value => exact (keeps_setParameter _ _).bind fun _ => yields_pure rfl
  | setParameters params => exact (keeps_setParameters _).bind fun _ => yields_pure rfl
  | clearParameters => exact (keeps_setParameters _).bind fun _ => yields_pure rfl
  | executeQuery => exact (keeps_executeQuery hl).bind fun _ => yields_pure rfl
  | executeUpdate => exact (keeps_executeUpdate hl).bind fun _ => yields_pure rfl
  | execute => exact (keeps_execute hl).bind fun _ => yields_pure rfl
  | resultSet => exact keeps_resultSet.bind fun _ => yields_pure rfl
  | nextRow =>
    refine (keeps_onResultSet fun r w f hw => ?_).bind fun _ => yields_pure rfl
    obtain ⟨hr, hw'⟩ := r.has_next hc hw
    rwa [hr]
  | allRows =>
    refine (keeps_onResultSet fun r w f hw => ?_).bind fun _ => yields_pure rfl
    obtain ⟨hr, hw'⟩ := r.has_readAll hc hw
    rwa [hr]
  | closeResultSet =>
    refine (keeps_onResultSet fun r w f hw => ?_).bind fun _ => yields_pure rfl
    obtain ⟨hr, hw'⟩ := r.has_close hc hw
    rwa [hr, zero_add]
  | generatedKeys => exact keeps_generatedKeys.bind fun _ => yields_pure rfl
  | addBatch => exact (keeps_addBatch hl).bind fun _ => yields_pure rfl
  | executeBatch => exact (keeps_executeBatch hl).bind fun _ => yields_pure rfl
  | clearBatch => exact (keeps_clearBatch hl).bind fun _ => yields_pure rfl
  | cancel =>
    have htoken : b.Quiet (Act.effect (l.dispatcher.token.put true)) := fun w => hl.token true w
    exact htoken.yields.outside.bind fun _ => yields_pure rfl
  | close => exact (keeps_close hl).bind fun _ => yields_pure rfl

end LogicalStatement

end Sharding
