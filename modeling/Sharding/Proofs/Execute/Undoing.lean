import Sharding.Proofs.Execute.Calls
import Sharding.Proofs.Execute.Crashing
import Sharding.Proofs.Execute.Journaled

/-!
# A preparation that fails

A statement executor first closes what it holds, then prepares the units of a call and binds them in
unit order.  `PreparationFails` says which calls are made up to a failure: of a connection or of a
preparation, as in `PlansFail`, or of a binding, when all units are prepared and those before are
bound.

After a failure every statement that was prepared on the way is closed, and the executor holds
nothing (`failed_prepare_leaves_nothing`).  The provider may do as it likes, and closes may fail.
-/

namespace Sharding

open Act

variable {W : Type}

/-! ## The unit that fails -/

/-- The calls of bindings of which one fails, after those of the units before it. -/
inductive BindingFails (prepared : List PreparedUnit) :
    List IndexedUnit → List ProviderCall → IndexedUnit → Error → Prop
  | here {u rest e} (hu : u ∈ prepared) :
      BindingFails prepared (u.toIndexedUnit :: rest)
        [.bind u.statement u.unit.params (.error (.error e))] u.toIndexedUnit e
  | later {u rest calls v e} (hu : u ∈ prepared) (h : BindingFails prepared rest calls v e) :
      BindingFails prepared (u.toIndexedUnit :: rest)
        (.bind u.statement u.unit.params (.ok ()) :: calls) v e

/-- The calls of a preparation up to the failure of a unit. -/
inductive PreparationFails (limit : Nat) (units : List RouteUnit) :
    List ProviderCall → IndexedUnit → Error → Prop
  | preparing {calls u e} (h : PlansFail (planGroups limit units) calls u e) :
      PreparationFails limit units calls u e
  | binding {groups calls u e} (connections : List Connection)
      (hgroups : List.Forall₂ ExecutionGroup.Follows groups (planGroups limit units))
      (hconnections : connections.length = groups.length)
      (h : BindingFails (groups.flatMap (·.units)) (indexUnits units) calls u e) :
      PreparationFails limit units (callsOf groups connections ++ calls) u e

namespace BindingFails

variable {prepared : List PreparedUnit} {us : List IndexedUnit} {calls : List ProviderCall}
  {u : IndexedUnit} {e : Error} (h : BindingFails prepared us calls u e)
include h

theorem mem : u ∈ us := by
  induction h with
  | here => exact List.mem_cons_self
  | later _ _ ih => exact List.mem_cons_of_mem _ ih

theorem preparedIn_eq : preparedIn calls = [] := by
  induction h with
  | here => rfl
  | later _ _ ih => exact ih

theorem not_unfailing : ¬ Unfailing calls := by
  induction h with
  | here => exact fun hcalls => nomatch hcalls _ List.mem_cons_self
  | later _ _ ih => exact fun hcalls => ih (List.forall_mem_cons.1 hcalls).2

theorem not_runs : ∀ call ∈ calls, ¬ call.Runs := by
  induction h with
  | here => simp [ProviderCall.Runs]
  | later _ _ ih => exact List.forall_mem_cons.2 ⟨id, ih⟩

end BindingFails

namespace PreparationFails

variable {limit : Nat} {units : List RouteUnit} {calls : List ProviderCall} {u : IndexedUnit}
  {e : Error} (h : PreparationFails limit units calls u e)
include h

theorem mem : u ∈ indexUnits units := by
  cases h with
  | preparing h =>
    have hmem := h.mem
    rw [flatMap_planGroups] at hmem
    exact (perm_unitsByShard units).subset hmem
  | binding _ _ _ h => exact h.mem

theorem not_runs : ∀ call ∈ calls, ¬ call.Runs := by
  cases h with
  | preparing h => exact h.not_runs
  | binding connections _ _ h =>
    refine List.forall_mem_append.2 ⟨?_, h.not_runs⟩
    exact forall_mem_callsOf (fun _ _ => id) (fun _ _ _ => id) _ connections

theorem not_unfailing : ¬ Unfailing calls := by
  cases h with
  | preparing h => exact h.not_unfailing
  | binding _ _ _ h => exact fun hcalls => h.not_unfailing (unfailing_append.1 hcalls).2

end PreparationFails

namespace StatementExecutor

variable {d : Dispatcher W} {x : StatementExecutor} {units : List RouteUnit} {w : W}

/-- The statements that are held. -/
def statements (x : StatementExecutor) : List Nat :=
  x.prepared.map (·.statement)

/-! ## Binding -/

/-- The prepared unit that is found by the position of a unit. -/
theorem find?_prepared (hx : x.prepared.map (·.toIndexedUnit) = unitsByShard units)
    {u : IndexedUnit} (hu : u ∈ indexUnits units) :
    ∃ v ∈ x.prepared, x.prepared.find? (·.index == u.index) = some v ∧ v.toIndexedUnit = u := by
  have hprepared : ∀ v, v ∈ indexUnits units ↔ ∃ v' ∈ x.prepared, v'.toIndexedUnit = v := by
    intro v
    rw [← (perm_unitsByShard units).mem_iff, ← hx, List.mem_map]
  obtain ⟨v, hv, hvu⟩ := (hprepared u).1 hu
  have hsome : (x.prepared.find? (·.index == u.index)).isSome :=
    List.find?_isSome.2 ⟨v, hv, by rw [← hvu, beq_iff_eq]⟩
  obtain ⟨v', hfound⟩ := Option.isSome_iff_exists.1 hsome
  have hv' := List.mem_of_find?_eq_some hfound
  have hindex : v'.index = u.index := by simpa using List.find?_some hfound
  exact ⟨v', hv', hfound, eq_of_mem_indexUnits ((hprepared _).2 ⟨v', hv', rfl⟩) hu hindex⟩

/-- How the binding of some units ends: well, with a crash before anything failed, or with the
failure of a unit. -/
def BindingEnds (x : StatementExecutor) (us : List IndexedUnit) :
    Except Stop Unit → List ProviderCall → Prop
  | .ok _, calls => Unfailing calls
  | .error stop, calls => stop = .crash ∧ Unfailing calls ∨
      ∃ u e, BindingFails x.prepared us calls u e ∧
        stop = .error (.execution [u.failure e] x.units.length)

/-- A unit is bound by one call on its statement. -/
theorem logs_bind (hx : x.prepared.map (·.toIndexedUnit) = unitsByShard units) {u : IndexedUnit}
    (hu : u ∈ indexUnits units) :
    Logs besideState (bind d.logged u.index u.unit.params) (bind d u.index u.unit.params) (x, w)
      fun reply q calls => q.1 = x ∧ ∃ v ∈ x.prepared, v.toIndexedUnit = u ∧
        match reply with
        | .ok _ => calls = [.bind v.statement u.unit.params (.ok ())]
        | .error stop => stop = .crash ∧ Unfailing calls ∨
            ∃ e, calls = [.bind v.statement u.unit.params (.error (.error e))] ∧
              stop = .error (.execution [u.failure e] x.units.length) := by
  obtain ⟨v, hv, hfound, rfl⟩ := find?_prepared hx hu
  refine logs_state_bind ?_
  dsimp only
  rw [hfound]
  have hcall : Logs besideState (d.logged.provider.bind v.statement v.unit.params).outside
      (d.provider.bind v.statement v.unit.params).outside (x, w) fun reply q calls =>
        q.1 = x ∧ calls = [.bind v.statement v.unit.params reply] :=
    Logs.outside ((logs_logged _ _ w).mono fun _ _ _ hcalls => ⟨rfl, hcalls⟩)
  refine hcall.bind_attempt ?_ ?_
  · rintro reply q _ ⟨hq, rfl⟩
    cases reply with
    | ok _ => exact logs_pure ⟨hq, v, hv, rfl, rfl⟩
    | error e => exact logs_fail ⟨hq, v, hv, rfl, .inr ⟨e, rfl, by simp [Error.ofFailures]⟩⟩
  · rintro q _ ⟨hq, rfl⟩
    exact ⟨hq, v, hv, rfl, .inl ⟨rfl, by simp [Unfailing, ProviderCall.error?]⟩⟩

/-- Units are bound one after the other until one fails. -/
theorem logs_bindAll (hx : x.prepared.map (·.toIndexedUnit) = unitsByShard units)
    {us : List IndexedUnit} (hus : ∀ u ∈ us, u ∈ indexUnits units) :
    Logs besideState (bindAll d.logged us) (bindAll d us) (x, w) fun reply q calls =>
      q.1 = x ∧ BindingEnds x us reply calls := by
  induction us generalizing w with
  | nil => exact logs_pure ⟨rfl, fun _ hcall => nomatch hcall⟩
  | cons u us ih =>
    obtain ⟨hu, hrest⟩ := List.forall_mem_cons.1 hus
    refine (logs_bind hx hu).bind ?_ ?_
    · rintro _ ⟨y, w'⟩ _ ⟨hy, v, hv, rfl, rfl⟩
      obtain rfl : y = x := hy
      refine (ih hrest).mono fun reply q calls hcalls => ⟨hcalls.1, ?_⟩
      obtain ⟨-, hends⟩ := hcalls
      cases reply with
      | ok _ => exact List.forall_mem_cons.2 ⟨rfl, hends⟩
      | error stop =>
        rcases hends with ⟨rfl, hcalls⟩ | ⟨u', e, hfails, rfl⟩
        · exact .inl ⟨rfl, List.forall_mem_cons.2 ⟨rfl, hcalls⟩⟩
        · exact .inr ⟨u', e, .later hv hfails, rfl⟩
    · rintro stop ⟨y, w'⟩ calls ⟨hy, v, hv, rfl, hends⟩
      rcases hends with hcrash | ⟨e, rfl, rfl⟩
      · exact ⟨hy, .inl hcrash⟩
      · exact ⟨hy, .inr ⟨v.toIndexedUnit, e, .here hv, rfl⟩⟩

/-! ## Preparing -/

theorem clear_logged (q : StatementExecutor × W) (log : List ProviderCall) :
    (({} : StatementExecutor), closeGroups d.provider.logged q.1.groups (q.2, log)) =
      besideState ({}, closeGroups d.provider q.1.groups q.2) (log ++ closesOf q.1.statements) :=
  congrArg (Prod.mk _) (closeGroups_logged q.1.groups q.2 log)

/-- How a preparation ends: well, with a crash before anything failed, or with the failure of a
unit, after which everything is closed. -/
def PreparationEnds (d : Dispatcher W) (x : StatementExecutor) (units : List RouteUnit) :
    Except Stop Nat → StatementExecutor × W → List ProviderCall → Prop
  | .ok _, _, calls => Unfailing calls
  | .error stop, q, calls => stop = .crash ∧ Unfailing calls ∨
      ∃ made u e, PreparationFails d.connections units made u e ∧
        stop = .error (.execution [u.failure e] units.length) ∧
        calls = closesOf x.statements ++ made ++ closesOf (preparedIn made) ∧ q.1 = {}

theorem not_runs_closesOf (statements : List Nat) : ∀ call ∈ closesOf statements, ¬ call.Runs :=
  List.forall_mem_map.2 fun _ _ => id

theorem logs_prepare :
    Logs besideState (prepare d.logged units) (prepare d units) (x, w)
      (PreparationEnds d x units) := by
  have hheld : Unfailing (closesOf x.statements) := unfailing_closesOf _
  refine logs_effect_bind (closesOf x.statements) (clear_logged (x, w)) ?_
  have hgroups : Logs besideState (prepareGroups d.logged.provider d.connections units).outside
      (prepareGroups d.provider d.connections units).outside
      (({} : StatementExecutor), closeGroups d.provider x.groups w) fun reply q calls =>
        q.1 = {} ∧ GroupsEnd d.connections units reply calls :=
    Logs.outside ((logs_prepareGroups ..).mono fun _ _ _ hcalls => ⟨rfl, hcalls⟩)
  refine hgroups.bind ?_ ?_
  · rintro groups ⟨_, w'⟩ _ ⟨-, hfollows, connections, hlength, rfl⟩
    have hprepared : (groups.flatMap (·.units)).map (·.toIndexedUnit) = unitsByShard units :=
      (units_of_follows hfollows).trans (flatMap_planGroups ..)
    have hcalls := unfailing_callsOf groups connections
    refine logs_update_bind ((logs_bindAll (x := ⟨groups, units⟩) hprepared
      fun _ hu => hu).bind_attempt ?_ ?_)
    · rintro reply ⟨y, w''⟩ calls ⟨hy, hends⟩
      obtain rfl : y = ⟨groups, units⟩ := hy
      cases reply with
      | ok _ =>
        have hbound : Unfailing calls := hends
        exact logs_pure (by simpa [PreparationEnds, hheld, hcalls] using hbound)
      | error e =>
        obtain ⟨u, e', hfails, hstop⟩ := hends.resolve_left nofun
        refine logs_effect_bind _ (clear_logged _) (logs_fail (.inr ?_))
        refine ⟨callsOf groups connections ++ calls, u, e',
          .binding connections hfollows hlength hfails, hstop, ?_, rfl⟩
        simp [preparedIn_callsOf hlength, hfails.preparedIn_eq, statements, prepared]
    · rintro ⟨y, w''⟩ calls ⟨hy, hends⟩
      obtain ⟨-, hends⟩ := hends.resolve_right nofun
      exact .inl ⟨rfl, by simpa [hheld, hcalls] using hends⟩
  · rintro stop q calls ⟨hq, hends⟩
    rcases hends with ⟨rfl, hcalls⟩ | ⟨made, u, e, hfails, rfl, rfl⟩
    · exact .inl ⟨rfl, unfailing_append.2 ⟨hheld, hcalls⟩⟩
    · exact .inr ⟨made, u, e, .preparing hfails, rfl, (List.append_assoc ..).symm, hq⟩

/-- A preparation that fails at a unit reports this unit and no other, with the number of all units.
Then the statements that were held, and all that were prepared on the way, have been closed, none
has been run, and the executor holds nothing.  Only such a failure makes the preparation fail. -/
theorem failed_prepare_leaves_nothing (d : Dispatcher W) (x : StatementExecutor)
    (units : List RouteUnit) (w : W) :
    ∃ calls, (∀ log, (prepare d.logged units).run (besideState (x, w) log) =
        (((prepare d units).run (x, w)).1,
          besideState ((prepare d units).run (x, w)).2 (log ++ calls))) ∧
      (Unfailing calls → ∀ e, ((prepare d units).run (x, w)).1 ≠ .error (.error e)) ∧
      (¬ Unfailing calls → ∃ made u e, PreparationFails d.connections units made u e ∧
        units[u.index]? = some u.unit ∧
        ((prepare d units).run (x, w)).1 =
          .error (.error (.execution [u.failure e] units.length)) ∧
        calls = closesOf x.statements ++ made ++ closesOf (preparedIn made) ∧
        (∀ call ∈ calls, ¬ call.Runs) ∧
        ((prepare d units).run (x, w)).2.1 = {}) := by
  have hprepare : Logs besideState (prepare d.logged units) (prepare d units) (x, w)
      (PreparationEnds d x units) := logs_prepare
  obtain ⟨calls, hrun, hends⟩ := hprepare
  rcases hreply : (prepare d units).run (x, w) with ⟨stop | n, q⟩
  all_goals rw [hreply] at hrun hends
  · rcases hends with ⟨rfl, hcalls⟩ | ⟨made, u, e, hfails, rfl, rfl, hq⟩
    · exact ⟨calls, hrun, by simp, fun hfailed => absurd hcalls hfailed⟩
    · refine ⟨_, hrun, fun hcalls => ?_, fun _ => ?_⟩
      · simp only [unfailing_append] at hcalls
        exact absurd hcalls.1.2 hfails.not_unfailing
      · refine ⟨made, u, e, hfails, mem_indexUnits.1 hfails.mem, rfl, rfl, ?_, hq⟩
        simp only [List.forall_mem_append]
        exact ⟨⟨not_runs_closesOf _, hfails.not_runs⟩, not_runs_closesOf _⟩
  · exact ⟨calls, hrun, by simp, fun hfailed => absurd hends hfailed⟩

/-- An executor that holds one statement. -/
def holdingOne : StatementExecutor where
  groups := [⟨"ds_0", .streaming, [shardUnit 0]⟩]
  units := [(shardUnit 0).unit]

/-- Two shards, with the statement on the first one.  On the second one no parameters are bound. -/
def unboundShard : Faulty where
  fst :=
    { shards := [{ name := "ds_0" }, { name := "ds_1" }]
      statements := [{ shard := "ds_0", sql := "SELECT id FROM t" }]
      openStatements := 1 }
  snd := (false, { placed := [⟨"ds_1", "SELECT", .bind⟩] })

/-- Two units are prepared and the second one is not bound: its failure is reported, and with the
statement held before all three are closed. -/
theorem failed_prepare_leaves_nothing_unbound :
    ∃ made u e, PreparationFails 1 [(shardUnit 0).unit, (shardUnit 1).unit] made u e ∧
      ((prepare faultyWorkers [(shardUnit 0).unit, (shardUnit 1).unit]).run
        (holdingOne, unboundShard)).1 = .error (.error (.execution [u.failure e] 2)) ∧
      ((prepare faultyWorkers.logged [(shardUnit 0).unit, (shardUnit 1).unit]).run
        (besideState (holdingOne, unboundShard) [])).2.2.2 =
          closesOf [0] ++ made ++ closesOf (preparedIn made) := by
  obtain ⟨calls, hrun, hends, hfailed⟩ := failed_prepare_leaves_nothing faultyWorkers holdingOne
    [(shardUnit 0).unit, (shardUnit 1).unit] unboundShard
  have hplans : planGroups faultyWorkers.connections [(shardUnit 0).unit, (shardUnit 1).unit] =
      [⟨"ds_0", .streaming, [⟨0, ⟨"ds_0", "SELECT id FROM t", []⟩⟩]⟩,
        ⟨"ds_1", .streaming, [⟨1, ⟨"ds_1", "SELECT id FROM t", []⟩⟩]⟩] := by
    change planGroups 1 [⟨"ds_0", "SELECT id FROM t", []⟩, ⟨"ds_1", "SELECT id FROM t", []⟩] = _
    cbv
  have hreply : ∃ e, ((prepare faultyWorkers [(shardUnit 0).unit, (shardUnit 1).unit]).run
      (holdingOne, unboundShard)).1 = .error (.error e) := by
    refine ⟨.ofFailures [⟨1, "ds_1", "SELECT id FROM t", .connection "ds_1" "fault bind"⟩] 2, ?_⟩
    rw [prepare, prepareGroups, hplans]
    rfl
  obtain ⟨e, he⟩ := hreply
  obtain ⟨made, u, e, hmade, -, hreply, rfl, -, -⟩ := hfailed fun hcalls => hends hcalls e he
  refine ⟨made, u, e, hmade, hreply, ?_⟩
  rw [hrun []]
  rfl

end StatementExecutor

end Sharding
