import Sharding.Execute.Statement
import Sharding.Proofs.Act.Agreeing
import Sharding.Proofs.Act.Giving
import Sharding.Proofs.Distinct

/-!
# Prepared units

How many connections a call may use decides how its units are grouped, and not which units are
prepared: in all groupings the units stand in the same order (`flatMap_planGroups`).

A provider is steady when connecting changes nothing and has the same answer each time.  There it
makes no difference whether units share a connection, and preparing comes to preparing the units one
after the other (`agrees_preparePlans`).
-/

namespace Sharding

open Act

variable {W : Type} {p : Provider W}

/-! ## Plans -/

/-- The units of a call in the order in which they are prepared. -/
def unitsByShard (units : List RouteUnit) : List IndexedUnit :=
  (distinct (units.map (·.shard))).flatMap fun shard =>
    (indexUnits units).filter (·.unit.shard == shard)

/-- A plan has units, all of its shard. -/
structure ExecutionPlan.Uniform (plan : ExecutionPlan) : Prop where
  ne_nil : plan.units ≠ []
  shard : ∀ u ∈ plan.units, u.unit.shard = plan.shard

theorem flatMap_planShard (limit : Nat) (shard : String) (units : List IndexedUnit) :
    (planShard limit shard units).flatMap (·.units) = units := by
  unfold planShard
  rw [List.flatMap_map, List.flatMap_id', flatten_chunks]

/-- Whatever the number of connections, the same units are prepared in the same order. -/
theorem flatMap_planGroups (limit : Nat) (units : List RouteUnit) :
    (planGroups limit units).flatMap (·.units) = unitsByShard units := by
  unfold planGroups unitsByShard
  rw [List.flatMap_assoc]
  simp only [flatMap_planShard]

theorem map_unit_indexUnits (units : List RouteUnit) :
    (indexUnits units).map (·.unit) = units := by
  rw [indexUnits, List.map_map]
  exact List.zipIdx_map_fst 0 units

/-- Shard by shard, each unit comes once. -/
theorem perm_unitsByShard (units : List RouteUnit) :
    (unitsByShard units).Perm (indexUnits units) := by
  have hshards : units.map (·.shard) = (indexUnits units).map (·.unit.shard) :=
    (congrArg (List.map (·.shard)) (map_unit_indexUnits units).symm).trans List.map_map
  rw [unitsByShard, hshards]
  exact perm_flatMap_distinct (fun u : IndexedUnit => u.unit.shard) (indexUnits units)

theorem uniform_of_mem_planGroups {limit : Nat} {units : List RouteUnit} {plan : ExecutionPlan}
    (h : plan ∈ planGroups limit units) : plan.Uniform := by
  obtain ⟨shard, -, hplan⟩ := List.mem_flatMap.1 h
  obtain ⟨chunk, hchunk, rfl⟩ := List.mem_map.1 hplan
  refine ⟨ne_nil_of_mem_chunks hchunk, fun u hu => ?_⟩
  have hmem := List.mem_flatten_of_mem hchunk hu
  rw [flatten_chunks] at hmem
  exact eq_of_beq (List.mem_filter.1 hmem).2

/-! ## Prepared groups -/

/-- The group has the units of the plan, prepared in their order. -/
structure ExecutionGroup.Follows (g : ExecutionGroup) (plan : ExecutionPlan) : Prop where
  shard : g.shard = plan.shard
  mode : g.mode = plan.mode
  units : g.units.map (·.toIndexedUnit) = plan.units

theorem prepareUnits_gives {c : Connection} {units : List IndexedUnit} {w : W} :
    (prepareUnits p c units).Gives w fun r _ =>
      r.2 = none → r.1.map (·.toIndexedUnit) = units := by
  induction units generalizing w with
  | nil => exact gives_of_run rfl fun _ => rfl
  | cons u rest ih =>
    refine gives_bind fun reply w' => ?_
    cases reply with
    | error e => exact gives_of_run rfl nofun
    | ok statement =>
      refine ih.bind fun r w'' hr => gives_of_run rfl fun hnone => ?_
      exact congrArg (u :: ·) (hr hnone)

theorem prepareGroup_gives {plan : ExecutionPlan} {w : W} :
    (prepareGroup p plan).Gives w fun r _ => r.2 = none → r.1.Follows plan := by
  refine gives_bind fun reply w' => ?_
  cases reply with
  | error e =>
    refine gives_of_run rfl fun hnone => ⟨rfl, rfl, ?_⟩
    have hempty := List.head?_eq_none_iff.1 (Option.map_eq_none_iff.1 hnone)
    rw [hempty]
    rfl
  | ok c =>
    refine Gives.bind prepareUnits_gives fun r w'' hr => ?_
    exact gives_of_run rfl fun hnone => ⟨rfl, rfl, hr hnone⟩

theorem preparePlans_gives {plans : List ExecutionPlan} {w : W} :
    (preparePlans p plans).Gives w fun r _ =>
      r.2 = none → List.Forall₂ ExecutionGroup.Follows r.1 plans := by
  induction plans generalizing w with
  | nil => exact gives_of_run rfl fun _ => .nil
  | cons plan rest ih =>
    refine prepareGroup_gives.bind fun r w' hgroup => ?_
    obtain ⟨group, failure⟩ := r
    cases failure with
    | some failure => exact gives_of_run rfl nofun
    | none =>
      refine ih.bind fun r w'' hrest => gives_of_run rfl fun hnone => ?_
      exact .cons (hgroup rfl) (hrest hnone)

/-- Groups that are prepared follow their plans. -/
theorem prepareGroups_gives {limit : Nat} {units : List RouteUnit} {w : W} :
    (prepareGroups p limit units).Gives w fun groups _ =>
      List.Forall₂ ExecutionGroup.Follows groups (planGroups limit units) := by
  refine preparePlans_gives.bind fun r w' hr => ?_
  obtain ⟨groups, failure⟩ := r
  cases failure with
  | none => exact gives_of_run rfl (hr rfl)
  | some failure => exact gives_bind fun _ _ => gives_fail _

/-- Where there is a group there is a unit. -/
theorem ne_nil_of_follows {groups : List ExecutionGroup} {limit : Nat} {units : List RouteUnit}
    (h : List.Forall₂ ExecutionGroup.Follows groups (planGroups limit units))
    (hne : groups ≠ []) : groups.flatMap (·.units) ≠ [] := by
  obtain ⟨g, rest, rfl⟩ := List.exists_cons_of_ne_nil hne
  obtain ⟨plan, plans, hg, -, hplans⟩ := List.forall₂_cons_left_iff.1 h
  have hplan : plan ∈ planGroups limit units := hplans ▸ List.mem_cons_self
  have hunits : g.units ≠ [] := by
    intro hnil
    apply (uniform_of_mem_planGroups hplan).ne_nil
    rw [← hg.units, hnil]
    rfl
  rw [List.flatMap_cons]
  exact List.append_ne_nil_of_left_ne_nil hunits _

namespace StatementExecutor

variable {d : Dispatcher W} {x : StatementExecutor} {w : W}

theorem bind_gives {index : Nat} {params : List Datum} :
    (bind d index params).Gives (x, w) fun _ q => q.1 = x := by
  refine gives_bind_of_run rfl ?_
  split
  · exact gives_fail _
  · rename_i u _
    have hbind : (d.provider.bind u.statement params).outside.Gives (x, w) fun _ q => q.1 = x :=
      Gives.outside fun _ _ _ => rfl
    refine hbind.bind_attempt ?_ fun e q => gives_fail _
    exact fun _ q hq => gives_of_run rfl hq

theorem bindAll_gives {units : List IndexedUnit} :
    (bindAll d units).Gives (x, w) fun _ q => q.1 = x := by
  induction units generalizing w with
  | nil => exact gives_of_run rfl rfl
  | cons u rest ih =>
    refine bind_gives.bind fun _ q hq => ?_
    obtain ⟨y, w'⟩ := q
    obtain rfl : y = x := hq
    exact ih

/-- An executor that is prepared holds the groups of its units. -/
theorem prepare_gives {units : List RouteUnit} :
    (prepare d units).Gives (x, w) fun _ q =>
      List.Forall₂ ExecutionGroup.Follows q.1.groups (planGroups d.connections units) := by
  refine gives_bind_of_run rfl ?_
  have hgroups : (prepareGroups d.provider d.connections units).outside.Gives
      (({} : StatementExecutor), closeGroups d.provider x.groups w) fun groups _ =>
        List.Forall₂ ExecutionGroup.Follows groups (planGroups d.connections units) :=
    Gives.outside prepareGroups_gives
  refine hgroups.bind fun groups q hgroups => gives_bind_of_run rfl ?_
  refine Gives.bind_attempt bindAll_gives ?_ fun e q => gives_bind fun _ _ => gives_fail _
  intro _ q hq
  refine gives_of_run rfl ?_
  rw [hq]
  exact hgroups

end StatementExecutor

/-! ## Steady providers -/

/-- Connecting changes nothing, and preparing a statement does not change how it is answered. -/
structure Provider.Steady (p : Provider W) : Prop where
  connect : ∀ shard w, ((p.connect shard).run w).2 = w
  prepare : ∀ c sql shard w,
    ((p.connect shard).run ((p.prepare c sql).run w).2).1 = ((p.connect shard).run w).1

/-- Prepares units until one fails, each on a connection of its own. -/
def prepareEach (p : Provider W) :
    List IndexedUnit → Act W (List PreparedUnit × Option (UnitFailure Error))
  | [] => return ([], none)
  | u :: rest => do
    match ← (do p.prepare (← p.connect u.unit.shard) u.unit.sql : Act W Nat).attempt with
    | .error e => return ([], some (u.failure e))
    | .ok statement =>
      let (units, failure) ← prepareEach p rest
      return ({ u with statement } :: units, failure)

theorem prepareEach_append (us vs : List IndexedUnit) :
    prepareEach p (us ++ vs) = do
      match ← prepareEach p us with
      | (units, some failure) => return (units, some failure)
      | (units, none) =>
        let (rest, failure) ← prepareEach p vs
        return (units ++ rest, failure) := by
  induction us with
  | nil => simp [prepareEach]
  | cons u us ih =>
    rw [List.cons_append, prepareEach, prepareEach, bind_assoc]
    refine bind_congr fun reply => ?_
    cases reply with
    | error e => simp
    | ok statement =>
      rw [ih]
      simp only [bind_assoc]
      refine bind_congr fun r => ?_
      obtain ⟨units, _ | failure⟩ := r <;> simp

theorem Provider.Steady.connect_again (hp : p.Steady) {shard : String} {c : Connection} {w : W}
    (h : (p.connect shard).run w = (.ok c, w)) (sql : String) :
    (p.connect shard).run ((p.prepare c sql).run w).2 = (.ok c, ((p.prepare c sql).run w).2) := by
  refine Prod.ext ?_ (hp.connect _ _)
  rw [hp.prepare, h]

theorem run_prepareUnits (hp : p.Steady) {shard : String} {c : Connection}
    {units : List IndexedUnit} (hunits : ∀ u ∈ units, u.unit.shard = shard) {w : W}
    (h : (p.connect shard).run w = (.ok c, w)) :
    (prepareUnits p c units).run w = (prepareEach p units).run w := by
  induction units generalizing w with
  | nil => rfl
  | cons u rest ih =>
    have hshard := hunits u List.mem_cons_self
    have hfirst : (do p.prepare (← p.connect u.unit.shard) u.unit.sql : Act W Nat).run w =
        (p.prepare c u.unit.sql).run w := by
      rw [run_bind, hshard, h]
    have hrest := ih (fun u hu => hunits u (List.mem_cons_of_mem _ hu))
      (hp.connect_again h u.unit.sql)
    unfold prepareUnits prepareEach
    rw [run_bind, run_bind, attempt, attempt, run_ofRun, run_ofRun, hfirst]
    rcases hprepare : (p.prepare c u.unit.sql).run w with ⟨⟨e | _⟩ | statement, w'⟩
    · rfl
    · rfl
    · rw [hprepare] at hrest
      dsimp only
      rw [run_bind, run_bind, hrest]

/-- Preparing a group comes to preparing its units. -/
theorem agrees_prepareGroup (hp : p.Steady) {plan : ExecutionPlan} (hplan : plan.Uniform) (w : W) :
    (prepareGroup p plan).Agrees w (prepareEach p plan.units) w fun r v r' v' =>
      v = v' ∧ r.1.units = r'.1 ∧ r.2 = r'.2 := by
  obtain ⟨shard, mode, units⟩ := plan
  obtain ⟨hne, hshard⟩ := hplan
  dsimp only at hne hshard ⊢
  obtain ⟨u, rest, rfl⟩ := List.exists_cons_of_ne_nil hne
  have hstay := hp.connect shard w
  unfold Agrees prepareGroup
  simp only [run_bind, attempt, run_ofRun]
  rcases hconnect : (p.connect shard).run w with ⟨⟨e | _⟩ | c, w'⟩
  all_goals
    rw [hconnect] at hstay
    cases hstay
  · unfold prepareEach
    simp only [run_bind, attempt, run_ofRun, hshard u List.mem_cons_self, hconnect]
    exact .ok ⟨rfl, rfl, rfl⟩
  · unfold prepareEach
    simp only [run_bind, attempt, run_ofRun, hshard u List.mem_cons_self, hconnect]
    exact .stop
  · rw [← run_prepareUnits hp hshard hconnect]
    simp only [run_bind]
    rcases (prepareUnits p c (u :: rest)).run w' with ⟨stop | ⟨units, failure⟩, w''⟩
    · exact .stop
    · exact .ok ⟨rfl, rfl, rfl⟩

/-- Preparing the groups of a call comes to preparing its units. -/
theorem agrees_preparePlans (hp : p.Steady) {plans : List ExecutionPlan}
    (hplans : ∀ plan ∈ plans, plan.Uniform) (w : W) :
    (preparePlans p plans).Agrees w (prepareEach p (plans.flatMap (·.units))) w fun r v r' v' =>
      v = v' ∧ r.1.flatMap (·.units) = r'.1 ∧ r.2 = r'.2 ∧ r.1.isEmpty = plans.isEmpty := by
  induction plans generalizing w with
  | nil => exact agrees_pure ⟨rfl, rfl, rfl, rfl⟩
  | cons plan rest ih =>
    rw [List.flatMap_cons, prepareEach_append]
    refine (agrees_prepareGroup hp (hplans plan List.mem_cons_self) w).bind ?_
    rintro ⟨group, failure⟩ v ⟨units, _⟩ _ ⟨rfl, hunits, rfl⟩
    cases failure with
    | some failure => exact agrees_pure ⟨rfl, by simpa using hunits, rfl, rfl⟩
    | none =>
      refine (ih (fun plan hplan => hplans plan (List.mem_cons_of_mem _ hplan)) v).bind ?_
      rintro ⟨groups, failure⟩ v' ⟨units', _⟩ _ ⟨rfl, hunits', rfl, -⟩
      refine agrees_pure ⟨rfl, ?_, rfl, rfl⟩
      rw [List.flatMap_cons, hunits']
      exact congrArg (· ++ units') hunits

/-- There is no group only where there is no unit. -/
theorem isEmpty_flatMap_units {plans : List ExecutionPlan} (hplans : ∀ plan ∈ plans, plan.Uniform) :
    (plans.flatMap (·.units)).isEmpty = plans.isEmpty := by
  cases plans with
  | nil => rfl
  | cons plan rest =>
    obtain ⟨u, units, hunits⟩ := List.exists_cons_of_ne_nil (hplans plan List.mem_cons_self).ne_nil
    rw [List.flatMap_cons, hunits]
    rfl

/-- With any number of connections the same units are prepared or the same unit fails.  What is
`known` of prepared units is known whatever their groups are. -/
theorem agrees_prepareGroups (hp : p.Steady) (limit limit' : Nat) (units : List RouteUnit) {w : W}
    {known : List PreparedUnit → W → Prop}
    (hknown : (prepareEach p (unitsByShard units)).Ends w fun reply v =>
      ∀ prepared failure, reply = .ok (prepared, failure) → known prepared v) :
    (prepareGroups p limit units).Agrees w (prepareGroups p limit' units) w
      fun groups v groups' v' => v' = v ∧ groups'.flatMap (·.units) = groups.flatMap (·.units) ∧
        groups'.isEmpty = groups.isEmpty ∧ known (groups.flatMap (·.units)) v := by
  have hplans : ∀ limit, (preparePlans p (planGroups limit units)).Agrees w
      (prepareEach p (unitsByShard units)) w fun r v r' v' =>
        (v = v' ∧ r.1.flatMap (·.units) = r'.1 ∧ r.2 = r'.2 ∧
          r.1.isEmpty = (unitsByShard units).isEmpty) ∧ known r'.1 v' := by
    intro limit
    have huniform : ∀ plan ∈ planGroups limit units, plan.Uniform :=
      fun plan hplan => uniform_of_mem_planGroups hplan
    have hagrees := agrees_preparePlans hp huniform w
    rw [← isEmpty_flatMap_units huniform, flatMap_planGroups] at hagrees
    exact (hagrees.and_ends hknown).mono fun r v r' v' h => ⟨h.1, h.2 _ _ rfl⟩
  refine ((hplans limit).join (hplans limit')).bind ?_
  rintro ⟨groups, reason⟩ v ⟨groups', reason'⟩ v'
    ⟨prepared, _, ⟨⟨rfl, hunits, hreason, hempty⟩, hknow⟩, ⟨rfl, hunits', hreason', hempty'⟩, -⟩
  obtain rfl : reason = reason' := hreason.trans hreason'.symm
  cases reason with
  | none =>
    rw [← hunits] at hknow
    exact agrees_pure ⟨rfl, hunits'.trans hunits.symm, hempty'.trans hempty.symm, hknow⟩
  | some reason =>
    exact agrees_effect_bind (agrees_fail _)

end Sharding
