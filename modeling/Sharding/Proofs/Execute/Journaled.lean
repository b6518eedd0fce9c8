import Sharding.Execute.Batch
import Sharding.Execute.Statement
import Sharding.Proofs.Execute.Resources
import Sharding.Proofs.Provider.Journal

/-!
# Executions in a journal

What an execution comes to for a journal that its provider keeps.

* `replies_prepareGroups`: a statement is prepared for every unit, or some unit is not served.
* `Runs.replies`: when every unit, run alone, is executed and has a good value, then all units
  together are executed, each once, and have good values in their order.
* `StatementExecutor.replies_prepare` and `StatementExecutor.replies_runAll` put this together for
  a statement that is executed once.
-/

namespace Sharding

open Act Journal

variable {W α : Type} {k : Journal W} {p : Provider W} {d : Dispatcher W} {w : W}
  {units : List RouteUnit}

/-- The statement of a prepared unit, with nothing bound. -/
def PreparedUnit.blank (u : PreparedUnit) : StatementState where
  shard := u.unit.shard
  sql := u.unit.sql

/-- The statement of a prepared unit, with its parameters bound. -/
def PreparedUnit.bound (u : PreparedUnit) : StatementState where
  shard := u.unit.shard
  sql := u.unit.sql
  params := u.unit.params

/-- The statements of some units. -/
def statesOf (state : PreparedUnit → StatementState) (prepared : List PreparedUnit) : Part :=
  (↑(prepared.map fun u => (u.statement, state u)), 0)

theorem statesOf_append (state : PreparedUnit → StatementState) (us vs : List PreparedUnit) :
    statesOf state (us ++ vs) = statesOf state us + statesOf state vs := by
  unfold statesOf
  rw [List.map_append, ← Multiset.coe_add]
  exact Prod.ext rfl (zero_add 0).symm

theorem statesOf_cons (state : PreparedUnit → StatementState) (u : PreparedUnit)
    (prepared : List PreparedUnit) :
    statesOf state (u :: prepared) = ({(u.statement, state u)}, 0) + statesOf state prepared :=
  statesOf_append state [u] prepared

/-! ## Preparing -/

namespace Journal

/-- Some unit is not served. -/
def Unserved (k : Journal W) (units : List RouteUnit) : Prop :=
  ∃ u ∈ units, ¬ k.serves u.shard u.sql

/-- All units are prepared, or one of them failed that is not served. -/
def Prepares (k : Journal W) (units : List IndexedUnit) (prepared : List PreparedUnit)
    (failure : Option (UnitFailure Error)) : Prop :=
  match failure with
  | none => prepared.map (·.toIndexedUnit) = units
  | some _ => k.Unserved (units.map (·.unit))

theorem Unserved.mono {us vs : List RouteUnit} (h : k.Unserved us) (hsub : us ⊆ vs) :
    k.Unserved vs := by
  obtain ⟨u, hu, hserves⟩ := h
  exact ⟨u, hsub hu, hserves⟩

end Journal

theorem Journal.Kept.owns_connect (hk : k.Kept p) (shard : String) :
    (p.connect shard).Owns k.Holds 0 fun reply m => m = 0 ∧
      match reply with
      | .ok c => c.shard = shard
      | .error _ => ∀ sql, ¬ k.serves shard sql := by
  intro w f hw
  refine (hk.connect shard w hw.sound).mono fun reply w' hreply => ⟨0, ?_, rfl, hreply.2⟩
  exact hw.same hreply.1

theorem Journal.Kept.owns_prepare (hk : k.Kept p) (c : Connection) (sql : String) :
    (p.prepare c sql).Owns k.Holds 0 fun reply m =>
      match reply with
      | .ok n => m = ({(n, { shard := c.shard, sql })}, 0)
      | .error _ => m = 0 ∧ ¬ k.serves c.shard sql := by
  intro w f hw
  refine (hk.prepare c sql w hw.sound).mono fun reply w' hreply => ?_
  cases reply with
  | error e => exact ⟨0, hw.same hreply.1, rfl, hreply.2⟩
  | ok n =>
    obtain ⟨ht, hfresh, hopen⟩ := hreply
    rw [zero_add] at hw
    have hn : n ∉ f.1.map Prod.fst := by
      intro hmem
      obtain ⟨o, ho, hnumber⟩ := Multiset.mem_map.1 hmem
      have hstate := hw.isOpen o ho
      rw [hnumber, hfresh] at hstate
      cases hstate
    have htouched := hw.touched_other ht hn
    rw [show ((0, 0) : Part) = 0 from rfl, zero_add] at htouched
    have htaken := htouched.take hn
    rw [hopen, opened_some] at htaken
    exact ⟨_, htaken, rfl⟩

theorem owns_prepareUnits (hk : k.Kept p) {c : Connection} {us : List IndexedUnit}
    (hshard : ∀ u ∈ us, u.unit.shard = c.shard) :
    (prepareUnits p c us).Owns k.Holds 0 fun reply m =>
      ∃ r, reply = .ok r ∧ m = statesOf PreparedUnit.blank r.1 ∧ k.Prepares us r.1 r.2 := by
  induction us with
  | nil => exact owns_pure ⟨_, rfl, rfl, rfl⟩
  | cons u rest ih =>
    refine (hk.owns_prepare c u.unit.sql).bind_attempt fun reply m hreply => ?_
    have hu := hshard u List.mem_cons_self
    cases reply with
    | error e =>
      obtain ⟨rfl, hserves⟩ := hreply
      rw [← hu] at hserves
      exact owns_pure ⟨_, rfl, rfl, u.unit, List.mem_cons_self, hserves⟩
    | ok n =>
      subst hreply
      have hrest := (ih fun v hv => hshard v (List.mem_cons_of_mem _ hv)).frame
        ({(n, { shard := c.shard, sql := u.unit.sql })}, 0)
      rw [zero_add] at hrest
      refine hrest.bind ?_ ?_
      · rintro _ m ⟨_, rfl, ⟨units, failure⟩, ⟨⟩, rfl, hprepares⟩
        refine owns_pure ⟨_, rfl, ?_, ?_⟩
        · rw [statesOf_cons, add_comm, ← hu]
          rfl
        · cases failure with
          | none => exact congrArg (u :: ·) hprepares
          | some failure => exact hprepares.mono (List.subset_cons_self _ _)
      · rintro e m ⟨_, _, _, ⟨⟩, _⟩

theorem owns_prepareGroup (hk : k.Kept p) {plan : ExecutionPlan} (hplan : plan.Uniform) :
    (prepareGroup p plan).Owns k.Holds 0 fun reply m =>
      ∃ r, reply = .ok r ∧ m = statesOf PreparedUnit.blank r.1.units ∧
        k.Prepares plan.units r.1.units r.2 := by
  refine (hk.owns_connect plan.shard).bind_attempt fun reply m hreply => ?_
  obtain ⟨rfl, hreply⟩ := hreply
  cases reply with
  | error e =>
    obtain ⟨u, rest, hunits⟩ := List.exists_cons_of_ne_nil hplan.ne_nil
    refine owns_pure ⟨_, rfl, rfl, ?_⟩
    rw [hunits]
    refine ⟨u.unit, List.mem_cons_self, ?_⟩
    rw [hplan.shard u (hunits ▸ List.mem_cons_self)]
    exact hreply u.unit.sql
  | ok c =>
    have hshard : ∀ u ∈ plan.units, u.unit.shard = c.shard := fun u hu => by
      rw [hplan.shard u hu]
      exact hreply.symm
    refine (owns_prepareUnits hk hshard).bind ?_ ?_
    · rintro _ m ⟨r, ⟨⟩, rfl, hprepares⟩
      exact owns_pure ⟨_, rfl, rfl, hprepares⟩
    · rintro e m ⟨_, ⟨⟩, _⟩

theorem owns_preparePlans (hk : k.Kept p) {plans : List ExecutionPlan}
    (hplans : ∀ plan ∈ plans, plan.Uniform) :
    (preparePlans p plans).Owns k.Holds 0 fun reply m =>
      ∃ r, reply = .ok r ∧ m = statesOf PreparedUnit.blank (r.1.flatMap (·.units)) ∧
        k.Prepares (plans.flatMap (·.units)) (r.1.flatMap (·.units)) r.2 := by
  induction plans with
  | nil => exact owns_pure ⟨_, rfl, rfl, rfl⟩
  | cons plan rest ih =>
    refine (owns_prepareGroup hk (hplans plan List.mem_cons_self)).bind ?_ ?_
    · rintro ⟨group, failure⟩ m ⟨_, ⟨⟩, rfl, hfirst⟩
      cases failure with
      | some failure =>
        refine owns_pure ⟨_, rfl, ?_, ?_⟩
        · rw [List.flatMap_singleton]
        · refine hfirst.mono ?_
          rw [List.flatMap_cons, List.map_append]
          exact List.subset_append_left _ _
      | none =>
        have hrest := (ih fun plan hplan => hplans plan (List.mem_cons_of_mem _ hplan)).frame
          (statesOf PreparedUnit.blank group.units)
        rw [zero_add] at hrest
        refine hrest.bind ?_ ?_
        · rintro _ m ⟨_, rfl, ⟨groups, failure⟩, ⟨⟩, rfl, hprepares⟩
          refine owns_pure ⟨_, rfl, ?_, ?_⟩
          · rw [List.flatMap_cons, statesOf_append, add_comm]
          · rw [List.flatMap_cons, List.flatMap_cons]
            cases failure with
            | none =>
              show List.map _ (_ ++ _) = _
              rw [List.map_append, show group.units.map _ = plan.units from hfirst,
                show (groups.flatMap (·.units)).map _ = rest.flatMap (·.units) from hprepares]
            | some failure =>
              refine hprepares.mono ?_
              rw [List.map_append]
              exact List.subset_append_right _ _
        · rintro e m ⟨_, _, _, ⟨⟩, _⟩
    · rintro e m ⟨_, ⟨⟩, _⟩

/-- Closing statements executes nothing. -/
theorem Journal.Holds.closeGroups (hk : k.Kept p) {m : Part} (h : k.Holds m w)
    (groups : List ExecutionGroup) : k.Holds (0, m.2) (closeGroups p groups w) := by
  have hclose : p.close.Keeps (k.Holds (0, m.2)) := by
    intro n w hw
    have htouched := hw.touched_other (hk.close n w hw.sound) (Multiset.notMem_zero n)
    rwa [show ((0, 0) : Part) = 0 from rfl, zero_add] at htouched
  exact hclose.closeGroups groups
    ⟨h.sound, Multiset.nodup_zero, fun o ho => absurd ho (Multiset.notMem_zero o), h.executed⟩

/-- A statement is prepared for every unit, or some unit is not served. -/
theorem replies_prepareGroups (hk : k.Kept p) (limit : Nat) (units : List RouteUnit) {m : Part}
    (hw : k.Holds m w) :
    (prepareGroups p limit units).Replies w fun reply w' =>
      match reply with
      | .ok groups => k.Holds (statesOf PreparedUnit.blank (groups.flatMap (·.units)) + m) w' ∧
          (groups.flatMap (·.units)).map (·.toIndexedUnit) = unitsByShard units
      | .error _ => k.Unserved units := by
  rw [← zero_add m] at hw
  have huniform : ∀ plan ∈ planGroups limit units, plan.Uniform := fun plan hplan =>
    uniform_of_mem_planGroups hplan
  have hplans := owns_preparePlans hk huniform
  refine (hplans w m hw).bind ?_ ?_
  · rintro ⟨groups, failure⟩ w' ⟨_, hw', _, ⟨⟩, rfl, hprepares⟩
    rw [flatMap_planGroups] at hprepares
    cases failure with
    | none => exact ⟨hw', hprepares⟩
    | some failure =>
      refine hprepares.mono fun u hu => ?_
      obtain ⟨v, hv, rfl⟩ := List.mem_map.1 hu
      rw [← map_unit_indexUnits units]
      exact List.mem_map_of_mem ((perm_unitsByShard units).subset hv)
  · rintro e w' ⟨_, _, _, ⟨⟩, _⟩

/-! ## Collecting -/

theorem mem_indexUnits {u : IndexedUnit} :
    u ∈ indexUnits units ↔ units[u.index]? = some u.unit := by
  unfold indexUnits
  rw [List.mem_map]
  constructor
  · rintro ⟨⟨unit, index⟩, hmem, rfl⟩
    exact List.mem_zipIdx_iff_getElem?.1 hmem
  · intro h
    exact ⟨(u.unit, u.index), List.mem_zipIdx_iff_getElem?.2 h, rfl⟩

theorem map_index_indexUnits (units : List RouteUnit) :
    (indexUnits units).map (·.index) = List.range units.length := by
  rw [indexUnits, List.map_map, List.range_eq_range']
  exact List.zipIdx_map_snd 0 units

/-- Units are told apart by their positions. -/
theorem eq_of_mem_indexUnits {u v : IndexedUnit} (hu : u ∈ indexUnits units)
    (hv : v ∈ indexUnits units) (h : u.index = v.index) : u = v := by
  rw [mem_indexUnits] at hu hv
  obtain ⟨index, unit⟩ := u
  obtain ⟨_, unit'⟩ := v
  cases h
  exact congrArg (IndexedUnit.mk index) (Option.some.inj (hu.symm.trans hv))

namespace UnitOutcome

variable {os : List (UnitOutcome α)}

/-- In the order of their units, the outcomes of all units of a call stand as these do. -/
theorem map_unit_inOrder (h : (os.map (·.unit)).Perm (indexUnits units)) :
    (inOrder os).map (·.unit) = indexUnits units := by
  have hperm := ((os.mergeSort_perm fun a b => a.unit.index ≤ b.unit.index).map (·.unit)).trans h
  have hantisymm : ∀ u v : IndexedUnit, u ∈ (inOrder os).map (·.unit) → v ∈ indexUnits units →
      u.index ≤ v.index → v.index ≤ u.index → u = v := by
    intro u v hu hv huv hvu
    exact eq_of_mem_indexUnits (hperm.subset hu) hv (Nat.le_antisymm huv hvu)
  refine hperm.eq_of_pairwise hantisymm ?_ ?_
  · exact List.pairwise_map.2 (pairwise_mergeSort_key (fun o : UnitOutcome α => o.unit.index) os)
  · have hrange : (List.range units.length).Pairwise (· ≤ ·) :=
      List.pairwise_lt_range.imp Nat.le_of_lt
    rw [← map_index_indexUnits] at hrange
    exact List.pairwise_map.1 hrange

theorem forall₂_values {good : IndexedUnit → α → Prop}
    (h : ∀ o ∈ os, ∃ a, o.result = .ok a ∧ good o.unit a) :
    List.Forall₂ good (os.map (·.unit)) (os.filterMap fun o => o.result.toOption) := by
  induction os with
  | nil => exact .nil
  | cons o os ih =>
    obtain ⟨a, ha, hgood⟩ := h o List.mem_cons_self
    have hvalue : o.result.toOption = some a := by
      rw [ha]
      rfl
    rw [List.map_cons, List.filterMap_cons, hvalue]
    exact .cons hgood (ih fun o ho => h o (List.mem_cons_of_mem _ ho))

/-- When no outcome is a failure, all are values. -/
theorem isOk_of_failures_isEmpty (h : (failures os).isEmpty = true) {o : UnitOutcome α}
    (ho : o ∈ os) : ∃ a, o.result = .ok a := by
  cases hresult : o.result with
  | ok a => exact ⟨a, rfl⟩
  | error e =>
    have hfailure : o.failure? = some (o.unit.failure e) := by
      unfold failure?
      rw [hresult]
    have hmem : o.unit.failure e ∈ failures os :=
      List.mem_filterMap.2 ⟨o, (List.mergeSort_perm _ _).mem_iff.2 ho, hfailure⟩
    rw [List.isEmpty_iff.1 h] at hmem
    cases hmem

theorem exists_error_of_failures {os : List (UnitOutcome α)}
    (h : ¬ (failures os).isEmpty = true) : ∃ o ∈ os, ∃ e, o.result = .error e := by
  obtain ⟨failure, hfailure⟩ := List.exists_mem_of_ne_nil _ (mt List.isEmpty_iff.2 h)
  obtain ⟨o, ho, hsome⟩ := List.mem_filterMap.1 hfailure
  refine ⟨o, (List.mergeSort_perm _ _).mem_iff.1 ho, ?_⟩
  unfold failure? at hsome
  cases hresult : o.result with
  | ok a =>
    rw [hresult] at hsome
    cases hsome
  | error e => exact ⟨e, rfl⟩

end UnitOutcome

/-! ## Running -/

namespace Journal

/-- The token of a call may be set. -/
def Cancellable (k : Journal W) (d : Dispatcher W) : Prop :=
  ∃ v, k.sound v ∧ d.token.isSet v = true

/-- Some unit is not served, unless the call can be cancelled. -/
def Excused (k : Journal W) (d : Dispatcher W) (units : List RouteUnit) : Prop :=
  k.Cancellable d ∨ k.Unserved units

/-- What is known of a unit that is run alone: when its statement is as `state` says, it is executed
as `ran` says and has a good value, or it is one that may fail. -/
def Runs (k : Journal W) (run : Dispatcher.UnitRun W α) (state : PreparedUnit → StatementState)
    (ran : IndexedUnit → Multiset RouteUnit) (good : IndexedUnit → α → Prop)
    (fails : RouteUnit → Prop) : Prop :=
  ∀ u mode, (run u mode).Owns k.Holds (Answering fun reply m =>
    match reply with
    | .ok a => good u.toIndexedUnit a ∧ m.2 = ran u.toIndexedUnit
    | .error _ => fails u.unit) ({(u.statement, state u)}, 0)

variable {run : Dispatcher.UnitRun W α} {state : PreparedUnit → StatementState}
  {ran : IndexedUnit → Multiset RouteUnit} {good : IndexedUnit → α → Prop}
  {fails : RouteUnit → Prop}

/-- What is known of a job and of the part that comes with its result. -/
def JobPost (k : Journal W) (d : Dispatcher W) (ran : IndexedUnit → Multiset RouteUnit)
    (good : IndexedUnit → α → Prop) (fails : RouteUnit → Prop) (m : Part) (job : Dispatcher.Job) :
    Except Error α → Prop
  | .ok a => good job.1.toIndexedUnit a ∧ m.2 = ran job.1.toIndexedUnit
  | .error _ => k.Cancellable d ∨ fails job.1.unit

theorem Runs.runsAlone (h : k.Runs run state ran good fails) (job : Dispatcher.Job) :
    Dispatcher.RunsAlone k.Holds d run (fun job => ({(job.1.statement, state job.1)}, 0))
      (k.JobPost d ran good fails) job := by
  refine Dispatcher.runsAlone_of (fun w f hw hset => ?_) fun w f hw _ => ?_
  · exact .inl ⟨w, hw.sound, hset⟩
  · refine (h job.1 job.2).mono fun result m hresult => ?_
    rcases result with ⟨e | _⟩ | a
    · exact .inr hresult
    · exact hresult
    · exact hresult

/-- All jobs together: every unit has an outcome, and what has been executed is what each unit
executed, if none of them failed. -/
theorem settled {m : Part} {jobs : List Dispatcher.Job} {os : List (UnitOutcome α)}
    (h : Allotted (Dispatcher.Settles (k.JobPost d ran good fails)) m jobs os) :
    os.map (·.unit) = jobs.map (·.1.toIndexedUnit) ∧
      (∀ o ∈ os, match o.result with
        | .ok a => good o.unit a
        | .error _ => k.Cancellable d ∨ fails o.unit.unit) ∧
      ((∀ o ∈ os, ∃ a, o.result = .ok a) → m.2 = ((os.map (·.unit)).map ran).sum) := by
  induction h with
  | nil => exact ⟨rfl, fun o ho => absurd ho List.not_mem_nil, fun _ => rfl⟩
  | @cons m rest job o _ _ hjob _ ih =>
    obtain ⟨hunits, hoks, hran⟩ := ih
    obtain ⟨hunit, hpost⟩ := hjob
    refine ⟨congrArg₂ List.cons hunit hunits, ?_, ?_⟩
    · refine List.forall_mem_cons.2 ⟨?_, hoks⟩
      rw [hunit]
      cases hresult : o.result with
      | ok a =>
        rw [hresult] at hpost
        exact hpost.1
      | error e =>
        rw [hresult] at hpost
        exact hpost
    · intro hall
      obtain ⟨⟨a, ha⟩, hrest⟩ := List.forall_mem_cons.1 hall
      rw [ha] at hpost
      rw [List.map_cons, List.map_cons, List.sum_cons, ← hran hrest, hunit, ← hpost.2]
      rfl

theorem sum_statesOf (groups : List ExecutionGroup) :
    ((Dispatcher.jobs groups).map fun job =>
      (({(job.1.statement, state job.1)}, 0) : Part)).sum =
        statesOf state (groups.flatMap (·.units)) := by
  rw [← Memory.map_fst_jobs]
  induction Dispatcher.jobs groups with
  | nil => rfl
  | cons job jobs ih =>
    rw [List.map_cons, List.sum_cons, ih, List.map_cons, statesOf_cons]

/-- When every unit does well alone, then the units of a call do well together: they are executed,
each once, and their values stand in the order of the units. -/
theorem Runs.replies (h : k.Runs run state ran good fails) {groups : List ExecutionGroup}
    {discard : α → W → W} {m : Part}
    (hunits : (groups.flatMap (·.units)).map (·.toIndexedUnit) = unitsByShard units)
    (hw : k.Holds (statesOf state (groups.flatMap (·.units)) + m) w) :
    (do collectOutcomes discard (← d.dispatch run groups) : Act W (List α)).Replies w
      fun reply w' =>
        match reply with
        | .ok values => List.Forall₂ good (indexUnits units) values ∧
            k.Holds (0, ((indexUnits units).map ran).sum + m.2) w'
        | .error _ => k.Cancellable d ∨ ∃ u ∈ units, fails u := by
  rw [← sum_statesOf] at hw
  obtain ⟨os, w', m', hdispatch, hos, hw'⟩ :=
    Dispatcher.dispatch_owns (fun job _ => h.runsAlone (d := d) job) hw
  obtain ⟨hjobs, hoks, hran⟩ := settled hos
  rw [← Memory.map_fst_jobs, List.map_map] at hunits
  have hperm : (os.map (·.unit)).Perm (indexUnits units) := by
    rw [hjobs.trans hunits]
    exact perm_unitsByShard units
  have hrun : (d.dispatch run groups).Replies w fun reply v => reply = .ok os ∧ v = w' := by
    unfold Replies
    rw [hdispatch]
    exact ⟨rfl, rfl⟩
  refine hrun.bind ?_ ?_
  · rintro _ _ ⟨⟨⟩, rfl⟩
    rw [collectOutcomes_eq]
    split
    · rename_i hempty
      have hall := fun o ho => UnitOutcome.isOk_of_failures_isEmpty hempty (o := o) ho
      refine ⟨?_, hw'.sound, Multiset.nodup_zero, fun o ho => absurd ho (Multiset.notMem_zero o),
        ?_⟩
      · rw [← UnitOutcome.map_unit_inOrder hperm]
        refine UnitOutcome.forall₂_values fun o ho => ?_
        have ho' := (List.mergeSort_perm _ _).mem_iff.1 ho
        obtain ⟨a, ha⟩ := hall o ho'
        have hgood := hoks o ho'
        rw [ha] at hgood
        exact ⟨a, ha, hgood⟩
      · rw [hw'.executed, ← (hperm.map ran).sum_eq, ← hran hall]
        rfl
    · rename_i hfailures
      obtain ⟨o, ho, e, he⟩ := UnitOutcome.exists_error_of_failures hfailures
      have hexcused := hoks o ho
      rw [he] at hexcused
      have hmem : o.unit.unit ∈ units := by
        rw [← map_unit_indexUnits units]
        exact List.mem_map_of_mem (hperm.subset (List.mem_map_of_mem ho))
      exact hexcused.imp_right fun hfails => ⟨_, hmem, hfails⟩
  · rintro e _ ⟨⟨⟩, _⟩

end Journal

end Sharding
