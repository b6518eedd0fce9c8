import Sharding.Proofs.Execute.Preparing
import Sharding.Proofs.Provider.Logged

/-!
# The calls of a preparation

A group that is prepared makes one connection to its shard and prepares each of its units on it
(`ExecutionGroup.calls`).  A preparation that fails has prepared the groups before in full, and the
units before in its own group; then a connection or a preparation failed (`PlansFail`), and what was
prepared is closed again.

These are all the calls that are made (`logs_prepareGroups`).
-/

namespace Sharding

open Act

variable {W : Type} {p : Provider W} {w : W}

/-! ## Calls that succeed -/

/-- The preparation of a unit on a connection. -/
def PreparedUnit.call (c : Connection) (u : PreparedUnit) : ProviderCall :=
  .prepare c u.unit.sql (.ok u.statement)

/-- The calls by which a group is prepared on a connection. -/
def ExecutionGroup.calls (g : ExecutionGroup) (c : Connection) : List ProviderCall :=
  .connect g.shard (.ok c) :: g.units.map (·.call c)

/-- The calls by which some groups are prepared, each on a connection of its own. -/
def callsOf (groups : List ExecutionGroup) (connections : List Connection) : List ProviderCall :=
  (List.zipWith ExecutionGroup.calls groups connections).flatten

/-- The statements that were prepared by some calls. -/
def preparedIn (calls : List ProviderCall) : List Nat :=
  calls.filterMap (·.prepared?)

/-- The closes of some statements. -/
def closesOf (statements : List Nat) : List ProviderCall :=
  statements.map .close

/-- Nothing failed, but for a crash. -/
def Unfailing (calls : List ProviderCall) : Prop :=
  ∀ call ∈ calls, call.error? = none

@[simp] theorem preparedIn_append (xs ys : List ProviderCall) :
    preparedIn (xs ++ ys) = preparedIn xs ++ preparedIn ys :=
  List.filterMap_append

@[simp] theorem preparedIn_map_call (c : Connection) (units : List PreparedUnit) :
    preparedIn (units.map (·.call c)) = units.map (·.statement) := by
  rw [preparedIn, List.filterMap_map, ← List.filterMap_eq_map]
  rfl

@[simp] theorem preparedIn_calls (g : ExecutionGroup) (c : Connection) :
    preparedIn (g.calls c) = g.units.map (·.statement) :=
  preparedIn_map_call c g.units

@[simp] theorem callsOf_cons (g : ExecutionGroup) (groups : List ExecutionGroup) (c : Connection)
    (connections : List Connection) :
    callsOf (g :: groups) (c :: connections) = g.calls c ++ callsOf groups connections :=
  rfl

theorem preparedIn_callsOf {groups : List ExecutionGroup} {connections : List Connection}
    (h : connections.length = groups.length) :
    preparedIn (callsOf groups connections) =
      (groups.flatMap (·.units)).map (·.statement) := by
  induction groups generalizing connections with
  | nil => rfl
  | cons g groups ih =>
    obtain ⟨c, connections, rfl⟩ := List.exists_cons_of_length_eq_add_one h
    rw [callsOf_cons, preparedIn_append, preparedIn_calls, ih (Nat.succ.inj h), List.flatMap_cons,
      List.map_append]

@[simp] theorem unfailing_append {xs ys : List ProviderCall} :
    Unfailing (xs ++ ys) ↔ Unfailing xs ∧ Unfailing ys :=
  List.forall_mem_append

section Succeeding

variable {good : ProviderCall → Prop} (hconnect : ∀ shard c, good (.connect shard (.ok c)))
  (hprepare : ∀ c sql n, good (.prepare c sql (.ok n)))

include hprepare in
theorem forall_mem_map_call (c : Connection) (units : List PreparedUnit) :
    ∀ call ∈ units.map (·.call c), good call :=
  List.forall_mem_map.2 fun u _ => hprepare c u.unit.sql u.statement

include hconnect hprepare

theorem forall_mem_calls (g : ExecutionGroup) (c : Connection) : ∀ call ∈ g.calls c, good call :=
  List.forall_mem_cons.2 ⟨hconnect g.shard c, forall_mem_map_call hprepare c g.units⟩

/-- Groups are prepared by connections and preparations that succeed. -/
theorem forall_mem_callsOf (groups : List ExecutionGroup) (connections : List Connection) :
    ∀ call ∈ callsOf groups connections, good call := by
  induction groups generalizing connections with
  | nil => exact fun _ hcall => nomatch hcall
  | cons g groups ih =>
    cases connections with
    | nil => exact fun _ hcall => nomatch hcall
    | cons c connections =>
      exact List.forall_mem_append.2 ⟨forall_mem_calls hconnect hprepare g c, ih connections⟩

end Succeeding

theorem unfailing_calls (g : ExecutionGroup) (c : Connection) : Unfailing (g.calls c) :=
  forall_mem_calls (fun _ _ => rfl) (fun _ _ _ => rfl) g c

theorem unfailing_callsOf (groups : List ExecutionGroup) (connections : List Connection) :
    Unfailing (callsOf groups connections) :=
  forall_mem_callsOf (fun _ _ => rfl) (fun _ _ _ => rfl) groups connections

theorem units_of_follows {groups : List ExecutionGroup} {plans : List ExecutionPlan}
    (h : List.Forall₂ ExecutionGroup.Follows groups plans) :
    (groups.flatMap (·.units)).map (·.toIndexedUnit) = plans.flatMap (·.units) := by
  induction h with
  | nil => rfl
  | cons hg _ ih => rw [List.flatMap_cons, List.flatMap_cons, List.map_append, hg.units, ih]

/-! ## Calls that end with a failure -/

/-- The calls of a group that is not prepared: there is no connection for its first unit, or some
unit is not prepared after those before it. -/
inductive ExecutionPlan.Fails (plan : ExecutionPlan) :
    List ProviderCall → IndexedUnit → Error → Prop
  | connect {u rest e} (h : plan.units = u :: rest) :
      plan.Fails [.connect plan.shard (.error (.error e))] u e
  | prepare {u rest e} (c : Connection) (done : List PreparedUnit)
      (h : plan.units = done.map (·.toIndexedUnit) ++ u :: rest) :
      plan.Fails (.connect plan.shard (.ok c) :: done.map (·.call c) ++
        [.prepare c u.unit.sql (.error (.error e))]) u e

/-- The calls of a preparation that fails in some group, after those before it were prepared. -/
inductive PlansFail : List ExecutionPlan → List ProviderCall → IndexedUnit → Error → Prop
  | here {plan plans calls u e} (h : plan.Fails calls u e) : PlansFail (plan :: plans) calls u e
  | later {plan plans g calls u e} (c : Connection) (hg : ExecutionGroup.Follows g plan)
      (h : PlansFail plans calls u e) : PlansFail (plan :: plans) (g.calls c ++ calls) u e

section Failing

variable {plan : ExecutionPlan} {plans : List ExecutionPlan} {calls : List ProviderCall}
  {u : IndexedUnit} {e : Error}

theorem ExecutionPlan.Fails.mem (h : plan.Fails calls u e) : u ∈ plan.units := by
  cases h with
  | connect h => simp [h]
  | prepare c done h => simp [h]

theorem ExecutionPlan.Fails.not_unfailing (h : plan.Fails calls u e) : ¬ Unfailing calls := by
  cases h with
  | connect h => simp [Unfailing, ProviderCall.error?]
  | prepare c done h => simp [Unfailing, ProviderCall.error?]

theorem ExecutionPlan.Fails.not_runs (h : plan.Fails calls u e) :
    ∀ call ∈ calls, ¬ call.Runs := by
  cases h with
  | connect h => simp [ProviderCall.Runs]
  | prepare c done h =>
    have hdone : ∀ call ∈ done.map (·.call c), ¬ call.Runs :=
      forall_mem_map_call (fun _ _ _ => id) c done
    simpa [ProviderCall.Runs, or_imp, forall_and] using hdone

/-- The unit that fails is one of the plans. -/
theorem PlansFail.mem (h : PlansFail plans calls u e) : u ∈ plans.flatMap (·.units) := by
  induction h with
  | here h =>
    rw [List.flatMap_cons]
    exact List.mem_append_left _ h.mem
  | later c hg h ih =>
    rw [List.flatMap_cons]
    exact List.mem_append_right _ ih

theorem PlansFail.not_unfailing (h : PlansFail plans calls u e) : ¬ Unfailing calls := by
  induction h with
  | here h => exact h.not_unfailing
  | later c hg h ih => exact fun hcalls => ih (unfailing_append.1 hcalls).2

theorem PlansFail.not_runs (h : PlansFail plans calls u e) : ∀ call ∈ calls, ¬ call.Runs := by
  induction h with
  | here h => exact h.not_runs
  | later c hg h ih =>
    exact List.forall_mem_append.2 ⟨forall_mem_calls (fun _ _ => id) (fun _ _ _ => id) _ c, ih⟩

end Failing

/-! ## Closing -/

theorem closeUnits_logged (units : List PreparedUnit) (w : W) (log : List ProviderCall) :
    closeUnits p.logged units (w, log) =
      (closeUnits p units w, log ++ closesOf (units.map (·.statement))) := by
  induction units generalizing w log with
  | nil => exact Prod.ext rfl (List.append_nil log).symm
  | cons u units ih =>
    refine (ih _ _).trans ?_
    rw [List.append_assoc]
    rfl

/-- Every statement of the groups is closed, whether or not the closes before it fail. -/
theorem closeGroups_logged (groups : List ExecutionGroup) (w : W) (log : List ProviderCall) :
    closeGroups p.logged groups (w, log) = (closeGroups p groups w,
      log ++ closesOf ((groups.flatMap (·.units)).map (·.statement))) := by
  induction groups generalizing w log with
  | nil => exact Prod.ext rfl (List.append_nil log).symm
  | cons g groups ih =>
    refine (congrArg (closeGroups p.logged groups) (closeUnits_logged _ _ _)).trans ?_
    rw [ih, List.append_assoc, List.flatMap_cons, List.map_append, closesOf, closesOf, closesOf,
      List.map_append]
    rfl

theorem unfailing_closesOf (statements : List Nat) : Unfailing (closesOf statements) :=
  List.forall_mem_map.2 fun _ _ => rfl

/-! ## Preparing -/

/-- How a preparation ends: with a value and the calls that belong to it, with a failure and the
calls up to that, or with a crash before anything failed. -/
def PrepareEnds {γ : Type} (ok : γ → List ProviderCall → Prop)
    (failed : γ → IndexedUnit → Error → List ProviderCall → Prop) :
    Except Stop (γ × Option (UnitFailure Error)) → List ProviderCall → Prop
  | .ok (a, none), calls => ok a calls
  | .ok (a, some failure), calls => ∃ u e, failure = u.failure e ∧ failed a u e calls
  | .error stop, calls => stop = .crash ∧ Unfailing calls

theorem logs_prepareUnits (c : Connection) (units : List IndexedUnit) (w : W) :
    Logs Prod.mk (prepareUnits p.logged c units) (prepareUnits p c units) w fun reply _ calls =>
      PrepareEnds (fun done calls => done.map (·.toIndexedUnit) = units ∧
          calls = done.map (·.call c))
        (fun done u e calls => (∃ rest, units = done.map PreparedUnit.toIndexedUnit ++ u :: rest) ∧
          calls = done.map (·.call c) ++ [.prepare c u.unit.sql (.error (.error e))])
        reply calls := by
  induction units generalizing w with
  | nil => exact logs_pure ⟨rfl, rfl⟩
  | cons u units ih =>
    refine (logs_logged (p.prepare c u.unit.sql) _ w).bind_attempt ?_ ?_
    · rintro reply w' _ rfl
      cases reply with
      | error e => exact logs_pure ⟨u, e, rfl, ⟨units, rfl⟩, rfl⟩
      | ok statement =>
        refine (ih w').bind ?_ ?_
        · rintro ⟨done, failure⟩ w'' calls hcalls
          cases failure with
          | none =>
            obtain ⟨rfl, rfl⟩ := hcalls
            exact logs_pure ⟨rfl, by simp [PreparedUnit.call, Except.mapError]⟩
          | some failure =>
            obtain ⟨v, e, rfl, ⟨rest, rfl⟩, rfl⟩ := hcalls
            exact logs_pure ⟨v, e, rfl, ⟨rest, rfl⟩, by simp [PreparedUnit.call, Except.mapError]⟩
        · rintro stop w'' calls ⟨rfl, hcalls⟩
          exact ⟨rfl, List.forall_mem_cons.2 ⟨rfl, hcalls⟩⟩
    · rintro w' _ rfl
      exact ⟨rfl, by simp [Unfailing, ProviderCall.error?]⟩

theorem logs_prepareGroup {plan : ExecutionPlan} (hplan : plan.units ≠ []) (w : W) :
    Logs Prod.mk (prepareGroup p.logged plan) (prepareGroup p plan) w fun reply _ calls =>
      PrepareEnds (fun g calls => g.Follows plan ∧ ∃ c, calls = g.calls c)
        (fun g u e calls => plan.Fails calls u e ∧
          preparedIn calls = g.units.map (·.statement))
        reply calls := by
  obtain ⟨u, rest, hunits⟩ := List.exists_cons_of_ne_nil hplan
  refine (logs_logged (p.connect plan.shard) _ w).bind_attempt ?_ ?_
  · rintro reply w' _ rfl
    cases reply with
    | error e =>
      rw [hunits]
      exact logs_pure ⟨u, e, rfl, .connect hunits, rfl⟩
    | ok c =>
      refine (logs_prepareUnits c plan.units w').bind ?_ ?_
      · rintro ⟨done, failure⟩ w'' calls hcalls
        cases failure with
        | none =>
          obtain ⟨hdone, rfl⟩ := hcalls
          exact logs_pure ⟨⟨rfl, rfl, hdone⟩, c, by simp [ExecutionGroup.calls, Except.mapError]⟩
        | some failure =>
          obtain ⟨v, e, rfl, ⟨rest, hrest⟩, rfl⟩ := hcalls
          refine logs_pure ⟨v, e, rfl, ?_, ?_⟩
          · simpa [Except.mapError] using ExecutionPlan.Fails.prepare c done hrest
          · simp [preparedIn, ProviderCall.prepared?, PreparedUnit.call, Except.mapError]
      · rintro stop w'' calls ⟨rfl, hcalls⟩
        exact ⟨rfl, List.forall_mem_cons.2 ⟨rfl, hcalls⟩⟩
  · rintro w' _ rfl
    exact ⟨rfl, by simp [Unfailing, ProviderCall.error?]⟩

theorem logs_preparePlans {plans : List ExecutionPlan} (hplans : ∀ plan ∈ plans, plan.units ≠ [])
    (w : W) :
    Logs Prod.mk (preparePlans p.logged plans) (preparePlans p plans) w fun reply _ calls =>
      PrepareEnds (fun groups calls => List.Forall₂ ExecutionGroup.Follows groups plans ∧
          ∃ connections, connections.length = groups.length ∧ calls = callsOf groups connections)
        (fun groups u e calls => PlansFail plans calls u e ∧
          preparedIn calls = (groups.flatMap (·.units)).map (·.statement))
        reply calls := by
  induction plans generalizing w with
  | nil => exact logs_pure ⟨.nil, [], rfl, rfl⟩
  | cons plan plans ih =>
    obtain ⟨hplan, hplans⟩ := List.forall_mem_cons.1 hplans
    refine (logs_prepareGroup hplan w).bind ?_ ?_
    · rintro ⟨g, failure⟩ w' calls hcalls
      cases failure with
      | some failure =>
        obtain ⟨u, e, rfl, hfails, hprepared⟩ := hcalls
        exact logs_pure ⟨u, e, rfl, by simpa using PlansFail.here hfails, by simpa using hprepared⟩
      | none =>
        obtain ⟨hg, c, rfl⟩ := hcalls
        refine (ih hplans w').bind ?_ ?_
        · rintro ⟨groups, failure⟩ w'' calls hcalls
          cases failure with
          | none =>
            obtain ⟨hgroups, connections, hlength, rfl⟩ := hcalls
            refine logs_pure ⟨.cons hg hgroups, c :: connections, ?_, ?_⟩
            · exact congrArg Nat.succ hlength
            · simp
          | some failure =>
            obtain ⟨u, e, rfl, hfails, hprepared⟩ := hcalls
            refine logs_pure ⟨u, e, rfl, ?_, ?_⟩
            · simpa using PlansFail.later c hg hfails
            · simp [hprepared]
        · rintro stop w'' calls ⟨rfl, hcalls⟩
          exact ⟨rfl, unfailing_append.2 ⟨unfailing_calls g c, hcalls⟩⟩
    · rintro stop w' calls ⟨rfl, hcalls⟩
      exact ⟨rfl, hcalls⟩

/-- How the preparation of a call ends: every group is prepared, or it crashed before anything
failed, or what was prepared up to the failure of a unit is closed again. -/
def GroupsEnd (limit : Nat) (units : List RouteUnit) :
    Except Stop (List ExecutionGroup) → List ProviderCall → Prop
  | .ok groups, calls => List.Forall₂ ExecutionGroup.Follows groups (planGroups limit units) ∧
      ∃ connections, connections.length = groups.length ∧ calls = callsOf groups connections
  | .error stop, calls => stop = .crash ∧ Unfailing calls ∨
      ∃ made u e, PlansFail (planGroups limit units) made u e ∧
        stop = .error (.execution [u.failure e] units.length) ∧
        calls = made ++ closesOf (preparedIn made)

theorem logs_prepareGroups (limit : Nat) (units : List RouteUnit) (w : W) :
    Logs Prod.mk (prepareGroups p.logged limit units) (prepareGroups p limit units) w
      fun reply _ calls => GroupsEnd limit units reply calls := by
  have hplans : ∀ plan ∈ planGroups limit units, plan.units ≠ [] :=
    fun plan hplan => (uniform_of_mem_planGroups hplan).ne_nil
  refine (logs_preparePlans hplans w).bind ?_ fun stop w' calls hcalls => .inl hcalls
  rintro ⟨groups, failure⟩ w' calls hcalls
  cases failure with
  | none =>
    obtain ⟨hgroups, connections, hlength, rfl⟩ := hcalls
    exact logs_pure ⟨hgroups, connections, hlength, List.append_nil _⟩
  | some failure =>
    obtain ⟨u, e, rfl, hfails, hprepared⟩ := hcalls
    refine logs_effect_bind _ (closeGroups_logged groups w') (logs_fail (.inr ?_))
    refine ⟨calls, u, e, hfails, ?_, ?_⟩
    · simp [Error.ofFailures]
    · rw [hprepared, List.append_nil]

end Sharding
