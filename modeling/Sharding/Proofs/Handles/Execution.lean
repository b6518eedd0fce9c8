import Sharding.Execute.Batch
import Sharding.Execute.Statement
import Sharding.Proofs.Execute.Dispatch
import Sharding.Proofs.Handles.Cursors

/-!
# Handles of an execution

The statements of an executor are those of its groups.  Its calls keep it that way, also when they
fail on the way: `b.With StatementExecutor.handles` says of an executor and a world that the open
statements are those of the executor, and whatever a call has besides is what it answers with.
-/

namespace Sharding

open Act

variable {W α : Type} {b : Books W} {p : Provider W} {d : Dispatcher W} {w : W} {f : Handles}

/-- The statement of a prepared unit. -/
def PreparedUnit.handles (u : PreparedUnit) : Handles :=
  Handles.statement u.statement

/-- The statements of some groups. -/
def groupHandles (groups : List ExecutionGroup) : Handles :=
  ((groups.flatMap (·.units)).map PreparedUnit.handles).sum

/-- The statements of an executor. -/
def StatementExecutor.handles (x : StatementExecutor) : Handles :=
  groupHandles x.groups

/-- The statements of a batch. -/
def BatchExecutor.handles (x : BatchExecutor) : Handles :=
  groupHandles x.groups

theorem groupHandles_cons (g : ExecutionGroup) (groups : List ExecutionGroup) :
    groupHandles (g :: groups) = (g.units.map PreparedUnit.handles).sum + groupHandles groups := by
  rw [groupHandles, List.flatMap_cons, List.map_append, List.sum_append]
  rfl

/-! ## Preparing and closing -/

theorem Books.Has.closeUnits (hp : b.Kept p) {units : List PreparedUnit}
    (h : b.Has ((units.map PreparedUnit.handles).sum + f) w) : b.Has f (closeUnits p units w) := by
  induction units generalizing w with
  | nil => rwa [List.map_nil, List.sum_nil, zero_add] at h
  | cons u units ih =>
    rw [List.map_cons, List.sum_cons, add_assoc] at h
    exact ih (h.close hp)

theorem Books.Has.closeGroups (hp : b.Kept p) {groups : List ExecutionGroup}
    (h : b.Has (groupHandles groups + f) w) : b.Has f (closeGroups p groups w) := by
  induction groups generalizing w with
  | nil => rwa [show groupHandles [] = 0 from rfl, zero_add] at h
  | cons g groups ih =>
    rw [groupHandles_cons, add_assoc] at h
    exact ih (h.closeUnits hp)

theorem succeeds_prepareUnits (hp : b.Kept p) (c : Connection) (units : List IndexedUnit) :
    (prepareUnits p c units).Succeeds b.Has 0 fun prepared =>
      (prepared.1.map PreparedUnit.handles).sum := by
  induction units with
  | nil => exact succeeds_pure rfl
  | cons u rest ih =>
    refine (hp.prepare c u.unit.sql).yields.attempt.bind fun reply => ?_
    cases reply with
    | error e => exact succeeds_pure rfl
    | ok n =>
      have hrest := ih.frame (Handles.statement n)
      rw [zero_add] at hrest
      exact hrest.bind fun prepared => succeeds_pure (add_comm _ _)

theorem succeeds_prepareGroup (hp : b.Kept p) (plan : ExecutionPlan) :
    (prepareGroup p plan).Succeeds b.Has 0 fun prepared =>
      (prepared.1.units.map PreparedUnit.handles).sum := by
  refine (hp.connect plan.shard).yields.attempt.bind fun reply => ?_
  cases reply with
  | error e => exact succeeds_pure rfl
  | ok c => exact (succeeds_prepareUnits hp c plan.units).bind fun _ => succeeds_pure rfl

theorem succeeds_preparePlans (hp : b.Kept p) (plans : List ExecutionPlan) :
    (preparePlans p plans).Succeeds b.Has 0 fun prepared => groupHandles prepared.1 := by
  induction plans with
  | nil => exact succeeds_pure rfl
  | cons plan rest ih =>
    refine (succeeds_prepareGroup hp plan).bind ?_
    rintro ⟨group, failure⟩
    cases failure with
    | some failure =>
      refine succeeds_pure ?_
      rw [groupHandles_cons]
      exact add_zero _
    | none =>
      have hrest := ih.frame (group.units.map PreparedUnit.handles).sum
      rw [zero_add] at hrest
      refine hrest.bind ?_
      rintro ⟨groups, failure⟩
      rw [add_comm, ← groupHandles_cons]
      exact succeeds_pure rfl

/-- When a unit cannot be prepared, the statements of the others are closed. -/
theorem yields_prepareGroups (hp : b.Kept p) (limit : Nat) (units : List RouteUnit) :
    (prepareGroups p limit units).Yields b.Has 0 groupHandles := by
  refine (succeeds_preparePlans hp _).yields.bind ?_
  rintro ⟨groups, failure⟩
  cases failure with
  | none => exact yields_pure rfl
  | some failure =>
    have hclose : (Act.effect (closeGroups p groups)).Yields b.Has (groupHandles groups)
        fun _ => 0 := yields_effect fun w f hw => by
      rw [zero_add]
      exact hw.closeGroups hp
    exact hclose.bind fun _ => yields_fail _

/-! ## Single executions -/

/-- The executor's own statements and `m` are what is open. -/
abbrev Books.With {S : Type} (b : Books W) (handles : S → Handles) : Handles → S × W → Prop :=
  besides handles b.Has

namespace StatementExecutor

theorem yields_clear (hp : b.Kept d.provider) :
    (clear d).Yields (b.With handles) 0 fun _ => 0 := by
  refine yields_effect ?_
  rintro ⟨x, w⟩ f hw
  show b.Has (groupHandles [] + (0 + f)) _
  rw [show groupHandles [] = 0 from rfl, zero_add]
  exact Books.Has.closeGroups hp hw

theorem yields_bind (hp : b.Kept d.provider) (index : Nat) (params : List Datum) :
    (bind d index params).Yields (b.With handles) 0 fun _ => 0 := by
  refine yields_state fun x w f hw => ?_
  rw [zero_add] at hw
  split
  · exact hw
  · rename_i u _
    have hbind : (d.provider.bind u.statement params).outside.Yields (b.With handles) 0
        fun _ => 0 := (hp.bind u.statement params).yields.outside
    rw [← zero_add f] at hw
    refine (hbind.attempt.yields.bind fun reply => ?_) (x, w) f hw
    cases reply with
    | ok _ => exact yields_pure rfl
    | error e => exact yields_fail _

theorem yields_bindAll (hp : b.Kept d.provider) (units : List IndexedUnit) :
    (bindAll d units).Yields (b.With handles) 0 fun _ => 0 := by
  induction units with
  | nil => exact yields_pure rfl
  | cons u rest ih => exact (yields_bind hp _ _).bind fun _ => ih

/-- Whether all units can be prepared and bound or not, the executor has its statements. -/
theorem yields_prepare (hp : b.Kept d.provider) (units : List RouteUnit) :
    (prepare d units).Yields (b.With handles) 0 fun _ => 0 := by
  rintro ⟨x, w⟩ f hw
  have hclosed : b.Has (0 + f) (closeGroups d.provider x.groups w) := hw.closeGroups hp
  rw [prepare, clear, ends_bind, ends_effect]
  dsimp only
  rw [ends_bind, ends_outside]
  refine (yields_prepareGroups hp d.connections units _ f hclosed).mono ?_
  rintro (e | groups) w' hleft
  · show b.Has (groupHandles [] + f) w'
    rwa [show groupHandles [] = 0 from rfl, zero_add]
  · have hgroups : b.With handles (0 + f) ({ groups, units }, w') := by
      show b.Has (groupHandles groups + (0 + f)) w'
      rwa [zero_add]
    dsimp only
    rw [ends_bind, ends_update]
    refine Yields.ends ?_ hgroups
    refine (yields_bindAll hp _).attempt.yields.bind fun reply => ?_
    cases reply with
    | ok _ => exact yields_pure rfl
    | error e => exact (yields_clear hp).bind fun _ => yields_fail e

/-- The values of units that are run have what belongs to them. -/
theorem yields_runAll {held : α → Handles} {discard : α → W → W} {run : Dispatcher.UnitRun W α}
    (hrun : ∀ u mode, (run u mode).Owns b.Has (Program.EndsWith held) 0)
    (hdiscard : ∀ a w f, b.Has (held a + f) w → b.Has f (discard a w)) :
    (runAll d discard run).Yields (b.With handles) 0 fun values => (values.map held).sum := by
  refine yields_state fun x w f hw => ?_
  split
  · rw [zero_add] at hw
    exact hw
  · exact (Dispatcher.yields_runUnits hrun hdiscard).outside (x, w) f hw

/-- A source keeps its cursor, or gives it back when it is read into memory at once. -/
theorem owns_settle_of {holds : Handles → W → Prop}
    (hclose : ∀ (s : Source) w f, holds (s.handles + f) w →
      holds f (s.close p.closeCursor w).2.2) (mode : ConnectionMode) (s : Source) :
    (settle p mode s).Owns holds (Program.EndsWith Source.handles) s.handles := by
  cases mode with
  | streaming => exact Program.owns_pure rfl
  | buffered =>
    refine Program.owns_ofAct fun w f hw => ⟨0, ?_, ?_⟩
    · rw [zero_add]
      rw [← s.handles_readAll] at hw
      exact hclose _ w f hw
    · show Program.EndsWith Source.handles ((s.drain p.closeCursor w).1.mapError .error) 0
      cases hdrain : (s.drain p.closeCursor w).1 with
      | error e => rfl
      | ok s' => exact (Source.handles_of_drain hdrain).symm

theorem owns_settle (hp : b.Kept p) (mode : ConnectionMode) (s : Source) :
    (settle p mode s).Owns b.Has (Program.EndsWith Source.handles) s.handles :=
  owns_settle_of (fun _ _ _ hw => hw.closeSource hp.closeCursor) mode s

theorem yields_query (hp : b.Kept d.provider) :
    (query d).Yields (b.With handles) 0 Source.allHandles := by
  refine yields_runAll (fun u mode => ?_) fun s w f hw => hw.closeSource hp.closeCursor
  exact (hp.query u.statement).owns.bind_endsWith fun s => owns_settle hp mode s

theorem yields_update (hp : b.Kept d.provider) :
    (update d).Yields (b.With handles) 0 fun _ => 0 := by
  have hall : (update d).Yields (b.With handles) 0 fun outcomes =>
      (outcomes.map fun _ => (0 : Handles)).sum := by
    refine yields_runAll (fun u mode => (hp.update u.statement).owns) fun _ w f hw => ?_
    rwa [zero_add] at hw
  simp only [List.sum_map_zero] at hall
  exact hall

theorem yields_execute (hp : b.Kept d.provider) :
    (execute d).Yields (b.With handles) 0 fun outcomes => (outcomes.map Outcome.handles).sum := by
  refine yields_runAll (fun u mode => ?_) fun outcome w f hw => ?_
  · refine (hp.execute u.statement).owns.bind_endsWith fun outcome => ?_
    cases outcome with
    | rows s => exact (owns_settle hp mode s).bind_endsWith fun s => Program.owns_pure rfl
    | update outcome => exact Program.owns_pure rfl
  · cases outcome with
    | rows s => exact hw.closeSource hp.closeCursor
    | update outcome => rwa [Outcome.handles, zero_add] at hw

end StatementExecutor

/-! ## Batches -/

namespace BatchExecutor

theorem yields_release (hp : b.Kept d.provider) :
    (release d).Yields (b.With handles) 0 fun _ => 0 := by
  refine yields_effect ?_
  rintro ⟨x, w⟩ f hw
  show b.Has (groupHandles [] + (0 + f)) _
  rw [show groupHandles [] = 0 from rfl, zero_add]
  exact Books.Has.closeGroups hp hw

theorem yields_clear (hp : b.Kept d.provider) :
    (clear d).Yields (b.With handles) 0 fun _ => 0 :=
  (yields_release hp).bind fun _ => yields_update fun _ => rfl

theorem owns_queueEntries (hp : b.Kept p) (statement : Nat) (entries : List BatchEntry) :
    (queueEntries p statement entries).Owns b.Has (Program.EndsWith fun _ => 0) 0 := by
  induction entries with
  | nil => exact Program.owns_pure rfl
  | cons entry rest ih =>
    refine (hp.bind statement entry.params).owns.bind_endsWith fun _ => ?_
    exact (hp.addBatch statement).owns.bind_endsWith fun _ => ih

theorem owns_runUnit (hp : b.Kept p) (units : List BatchUnit) (u : PreparedUnit) :
    (runUnit p units u).Owns b.Has (Program.EndsWith fun _ => 0) 0 := by
  refine (owns_queueEntries hp _ _).bind_endsWith fun _ => ?_
  refine (hp.executeBatch u.statement).owns.bind_endsWith fun counts => ?_
  refine Program.Owns.bind_endsWith
    (Program.owns_ofAct ?_ : Program.Owns _ (Program.EndsWith fun _ => (0 : Handles)) _ _)
    fun keys => Program.owns_pure rfl
  exact fun w f hw => ⟨0, hw.same (hp.batchKeys u.statement w), rfl⟩

/-- Whatever becomes of its units, the batch has its statements. -/
theorem yields_execute (hp : b.Kept d.provider) (accumulate : Bool) :
    (execute d accumulate).Yields (b.With handles) 0 fun _ => 0 := by
  refine yields_state fun x w f hw => ?_
  by_cases hcalls : x.calls = 0
  · rw [if_pos hcalls]
    exact hw
  · rw [if_neg hcalls]
    have hclosed : b.Has (0 + f) (closeGroups d.provider x.groups w) := Books.Has.closeGroups hp hw
    rw [release, ends_bind, ends_effect]
    dsimp only
    rw [ends_bind, ends_update]
    dsimp only
    rw [ends_bind, ends_outside]
    refine (yields_prepareGroups hp d.connections _ _ f hclosed).mono ?_
    rintro (e | groups) w' hleft
    · show b.Has (groupHandles [] + f) w'
      rwa [show groupHandles [] = 0 from rfl, zero_add]
    · have hgroups : b.With handles (0 + f) ({ x with groups, nativeKeys := [] }, w') := by
        show b.Has (groupHandles groups + (0 + f)) w'
        rwa [zero_add]
      dsimp only
      rw [ends_bind, ends_update]
      refine Yields.ends ?_ hgroups
      refine (Dispatcher.yields_runUnits (fun u _ => owns_runUnit hp x.units u)
        fun _ w f hw => ?_).outside.bind fun results => ?_
      · rwa [zero_add] at hw
      · rw [List.sum_map_zero]
        obtain ⟨totals, nativeKeys⟩ := credit accumulate (List.replicate x.calls 0)
          (x.units.zip results)
        have hupdate : (update fun x : BatchExecutor => { x with nativeKeys }).Yields
            (b.With handles) 0 fun _ => 0 := yields_update fun _ => rfl
        exact hupdate.bind fun _ => yields_ofExcept _

end BatchExecutor

end Sharding
