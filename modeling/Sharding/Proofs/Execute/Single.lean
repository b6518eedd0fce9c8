import Sharding.Proofs.Execute.Journaled

/-!
# Executing a statement once, in a journal

`StatementExecutor.prepare` leaves every unit of the call prepared and bound, or some unit is not
served (`replies_prepare`).  Then an update executes each unit once with its parameters, and the
counts that it reports are those of the units in their order (`replies_update`).
-/

namespace Sharding

open Act Journal

namespace StatementExecutor

variable {W α : Type} {k : Journal W} {d : Dispatcher W} {w : W} {units : List RouteUnit}
  {x : StatementExecutor} {us : List IndexedUnit} {m : Part}

/-! ## Binding -/

/-- Each unit of a call is prepared on a statement of its own. -/
structure Covers (x : StatementExecutor) (units : List RouteUnit) : Prop where
  units : x.prepared.map (·.toIndexedUnit) = unitsByShard units
  distinct : (x.prepared.map (·.statement)).Nodup

/-- The prepared statements are open, and those of units not among `us` have their parameters. -/
structure BoundBut (k : Journal W) (x : StatementExecutor) (us : List IndexedUnit)
    (executed : Multiset RouteUnit) (w : W) : Prop where
  sound : k.sound w
  executed : k.executed w = executed
  isOpen : ∀ v ∈ x.prepared, ∃ params, k.state? w v.statement = some { v.bound with params } ∧
    ((∀ u ∈ us, u.index ≠ v.index) → params = v.unit.params)

theorem Covers.mem_indexUnits (h : x.Covers units) {v : PreparedUnit} (hv : v ∈ x.prepared) :
    v.toIndexedUnit ∈ indexUnits units := by
  have hmem : v.toIndexedUnit ∈ x.prepared.map (·.toIndexedUnit) := List.mem_map_of_mem hv
  rw [h.units] at hmem
  exact (perm_unitsByShard units).subset hmem

/-- Units are told apart by their positions and by their statements. -/
theorem Covers.eq_of_index (h : x.Covers units) {u v : PreparedUnit} (hu : u ∈ x.prepared)
    (hv : v ∈ x.prepared) (hindex : u.index = v.index) : u = v := by
  have hnodup : (x.prepared.map (·.toIndexedUnit)).Nodup := by
    rw [h.units, (perm_unitsByShard units).nodup_iff]
    refine List.Nodup.of_map (·.index) ?_
    rw [map_index_indexUnits]
    exact List.nodup_range
  exact List.inj_on_of_nodup_map hnodup hu hv
    (eq_of_mem_indexUnits (h.mem_indexUnits hu) (h.mem_indexUnits hv) hindex)

theorem Covers.find? (h : x.Covers units) {u : IndexedUnit} (hu : u ∈ indexUnits units) :
    ∃ v ∈ x.prepared, x.prepared.find? (·.index == u.index) = some v ∧ v.toIndexedUnit = u := by
  have hmem : u ∈ x.prepared.map (·.toIndexedUnit) := by
    rw [h.units]
    exact (perm_unitsByShard units).mem_iff.2 hu
  obtain ⟨v, hv, rfl⟩ := List.mem_map.1 hmem
  have hsome : (x.prepared.find? (·.index == v.index)).isSome = true :=
    List.find?_isSome.2 ⟨v, hv, beq_self_eq_true v.index⟩
  obtain ⟨v', hfound⟩ := Option.isSome_iff_exists.1 hsome
  have hv' := List.mem_of_find?_eq_some hfound
  have hindex : v'.index = v.index := by simpa using List.find?_some hfound
  exact ⟨v', hv', hfound, congrArg _ (h.eq_of_index hv' hv hindex)⟩

theorem BoundBut.touched {executed : Multiset RouteUnit} {v : PreparedUnit} {u : IndexedUnit}
    {w' : W} (h : BoundBut k x (u :: us) executed w) (hx : x.Covers units) (hv : v ∈ x.prepared)
    (hu : v.toIndexedUnit = u) (ht : k.Touches v.statement 0 w w')
    (hbound : k.state? w' v.statement = some v.bound) : BoundBut k x us executed w' where
  sound := ht.sound
  executed := by
    rw [ht.executed, zero_add]
    exact h.executed
  isOpen v' hv' := by
    by_cases hsame : v'.statement = v.statement
    · obtain rfl := List.inj_on_of_nodup_map hx.distinct hv' hv hsame
      exact ⟨v'.unit.params, hbound, fun _ => rfl⟩
    · obtain ⟨params, hstate, hparams⟩ := h.isOpen v' hv'
      refine ⟨params, by rw [ht.others _ hsame, hstate], fun hus => hparams ?_⟩
      refine List.forall_mem_cons.2 ⟨fun hindex => hsame ?_, hus⟩
      rw [← hu] at hindex
      rw [hx.eq_of_index hv hv' hindex]

theorem replies_bind (hk : k.Kept d.provider) (hx : x.Covers units) {u : IndexedUnit}
    (hu : u ∈ indexUnits units) {executed : Multiset RouteUnit}
    (hw : BoundBut k x (u :: us) executed w) :
    (bind d u.index u.unit.params).Replies (x, w) fun reply p =>
      match reply with
      | .ok _ => p.1 = x ∧ BoundBut k x us executed p.2
      | .error _ => k.Unserved units := by
  obtain ⟨v, hv, hfound, rfl⟩ := hx.find? hu
  obtain ⟨params, hstate, -⟩ := hw.isOpen v hv
  refine replies_state_bind.2 ?_
  rw [hfound]
  have hbind : (d.provider.bind v.statement v.unit.params).outside.Replies (x, w) fun reply p =>
      p.1 = x ∧
        match reply with
        | .ok _ => BoundBut k x us executed p.2
        | .error _ => k.Unserved units := by
    refine replies_outside.2 ((hk.bind v.statement v.unit.params w _ hw.sound hstate).mono ?_)
    intro reply w' hreply
    cases reply with
    | ok _ => exact ⟨rfl, hw.touched hx hv rfl hreply.1 hreply.2⟩
    | error e =>
      refine ⟨rfl, v.unit, ?_, hreply.2⟩
      rw [← map_unit_indexUnits units]
      exact List.mem_map_of_mem hu
  refine hbind.bind_attempt fun reply p hreply => ?_
  cases reply with
  | ok _ => exact hreply
  | error e => exact hreply.2

theorem replies_bindAll (hk : k.Kept d.provider) (hx : x.Covers units)
    (hus : ∀ u ∈ us, u ∈ indexUnits units) {executed : Multiset RouteUnit}
    (hw : BoundBut k x us executed w) :
    (bindAll d us).Replies (x, w) fun reply p =>
      match reply with
      | .ok _ => p.1 = x ∧ BoundBut k x [] executed p.2
      | .error _ => k.Unserved units := by
  induction us generalizing w with
  | nil => exact ⟨rfl, hw⟩
  | cons u rest ih =>
    obtain ⟨hu, hrest⟩ := List.forall_mem_cons.1 hus
    refine (replies_bind hk hx hu hw).bind ?_ ?_
    · intro _ p hp
      obtain ⟨y, w'⟩ := p
      obtain ⟨rfl, hw'⟩ := hp
      exact ih hrest hw'
    · intro e p hunserved
      exact hunserved

/-! ## Preparing -/

/-- A call is prepared: its units are prepared and bound. -/
structure Loaded (k : Journal W) (units : List RouteUnit) (executed : Multiset RouteUnit)
    (p : StatementExecutor × W) : Prop where
  units : p.1.prepared.map (·.toIndexedUnit) = unitsByShard units
  holds : k.Holds (statesOf PreparedUnit.bound p.1.prepared + (0, executed)) p.2

/-- Distinct statements that are open as `state` says. -/
theorem holds_statesOf {state : PreparedUnit → StatementState} {prepared : List PreparedUnit}
    (hsound : k.sound w) (hdistinct : (prepared.map (·.statement)).Nodup)
    (hopen : ∀ v ∈ prepared, k.state? w v.statement = some (state v)) :
    k.Holds (statesOf state prepared + (0, k.executed w)) w where
  sound := hsound
  distinct := by
    show (((statesOf state prepared).1 + 0).map Prod.fst).Nodup
    rw [add_zero, statesOf, Multiset.map_coe, List.map_map, Multiset.coe_nodup]
    exact hdistinct
  isOpen o ho := by
    replace ho : o ∈ (statesOf state prepared).1 + 0 := ho
    rw [add_zero, statesOf, Multiset.mem_coe] at ho
    obtain ⟨v, hv, rfl⟩ := List.mem_map.1 ho
    exact hopen v hv
  executed := (zero_add _).symm

theorem nodup_of_holds {state : PreparedUnit → StatementState} {prepared : List PreparedUnit}
    (h : k.Holds (statesOf state prepared + m) w) : (prepared.map (·.statement)).Nodup := by
  have hdistinct : (((statesOf state prepared).1 + m.1).map Prod.fst).Nodup := h.distinct
  rw [Multiset.map_add] at hdistinct
  have hprepared := Multiset.nodup_of_le (Multiset.le_add_right _ _) hdistinct
  rwa [statesOf, Multiset.map_coe, List.map_map, Multiset.coe_nodup] at hprepared

theorem state?_of_holds {state : PreparedUnit → StatementState} {prepared : List PreparedUnit}
    (h : k.Holds (statesOf state prepared + m) w) {v : PreparedUnit} (hv : v ∈ prepared) :
    k.state? w v.statement = some (state v) :=
  h.isOpen (v.statement, state v) (Multiset.mem_add.2 (.inl (Multiset.mem_coe.2
    (List.mem_map.2 ⟨v, hv, rfl⟩))))

/-- Every unit is prepared and bound, or some unit is not served. -/
theorem replies_prepare (hk : k.Kept d.provider) (units : List RouteUnit) (x : StatementExecutor)
    (hw : k.sound w) :
    (prepare d units).Replies (x, w) fun reply p =>
      match reply with
      | .ok _ => Loaded k units (k.executed w) p
      | .error _ => k.Unserved units := by
  have hclosed := (holds_start hw).closeGroups hk x.groups
  have hgroups := replies_prepareGroups hk d.connections units hclosed
  refine replies_effect_bind.2 (hgroups.outside_bind ?_ fun e w' hunserved => hunserved)
  intro groups w' hprepared
  obtain ⟨hholds, hunits⟩ := hprepared
  refine replies_update_bind.2 ?_
  have hcovers : Covers { groups, units } units := ⟨hunits, nodup_of_holds hholds⟩
  have hstart : BoundBut k { groups, units } (indexUnits units) (k.executed w) w' := by
    refine ⟨hholds.sound, ?_, fun v hv => ?_⟩
    · rw [hholds.executed]
      exact zero_add _
    · refine ⟨[], state?_of_holds hholds hv, fun hall => ?_⟩
      exact absurd rfl (hall v.toIndexedUnit (hcovers.mem_indexUnits hv))
  refine (replies_bindAll hk hcovers (fun _ hu => hu) hstart).bind_attempt fun reply p hp => ?_
  cases reply with
  | error e => exact hp
  | ok _ =>
    obtain ⟨hx, hbound⟩ := hp
    obtain ⟨y, v⟩ := p
    subst hx
    refine ⟨hunits, ?_⟩
    rw [← hbound.executed]
    refine holds_statesOf hbound.sound hcovers.distinct fun u hu => ?_
    obtain ⟨params, hstate, hparams⟩ := hbound.isOpen u hu
    obtain rfl := hparams fun _ hnot => absurd hnot List.not_mem_nil
    exact hstate

/-! ## Running -/

variable {run : Dispatcher.UnitRun W α} {ran : IndexedUnit → Multiset RouteUnit}
  {good : IndexedUnit → α → Prop} {fails : RouteUnit → Prop} {discard : α → W → W}
  {executed : Multiset RouteUnit}

/-- Groups without units are prepared for no unit only. -/
theorem Loaded.groups_ne_nil {p : StatementExecutor × W} (h : Loaded k units executed p)
    (hunits : units ≠ []) : p.1.groups.isEmpty = false := by
  rw [Bool.eq_false_iff]
  intro hempty
  have hprepared : p.1.prepared = [] := by
    rw [prepared, List.isEmpty_iff.1 hempty]
    rfl
  have hperm := perm_unitsByShard units
  rw [← h.units, hprepared] at hperm
  apply hunits
  rw [← map_unit_indexUnits units, ← hperm.nil_eq]
  rfl

/-- Every unit is executed and has a good value, or some unit may fail. -/
theorem replies_runAll (hrun : k.Runs run PreparedUnit.bound ran good fails)
    {p : StatementExecutor × W} (hp : Loaded k units executed p) (hunits : units ≠ []) :
    (runAll d discard run).Replies p fun reply q =>
      match reply with
      | .ok values => List.Forall₂ good (indexUnits units) values ∧
          k.Holds (0, ((indexUnits units).map ran).sum + executed) q.2
      | .error _ => k.Cancellable d ∨ ∃ u ∈ units, fails u := by
  obtain ⟨x, w⟩ := p
  refine replies_state_bind.2 ?_
  rw [hp.groups_ne_nil hunits]
  exact replies_outside.2 (hrun.replies hp.units hp.holds)

/-- Units that are executed once each are executed as they are. -/
theorem sum_singleton_units (units : List RouteUnit) :
    ((indexUnits units).map fun u => ({u.unit} : Multiset RouteUnit)).sum = ↑units := by
  conv_rhs => rw [← map_unit_indexUnits units]
  induction indexUnits units with
  | nil => rfl
  | cons u us ih =>
    rw [List.map_cons, List.sum_cons, ih]
    rfl

/-- An update that is run alone. -/
theorem runs_update (hk : k.Kept d.provider) :
    k.Runs (fun u _ => Program.ofAct (d.provider.update u.statement)) PreparedUnit.bound
      (fun u => {u.unit}) (fun u outcome => k.reports [u.unit] [outcome.affected])
      fun u => ¬ k.serves u.shard u.sql := by
  intro u mode
  refine (Owns.mono (hk.update u.statement).owns fun reply m hreply => ?_).ofAct
  cases reply with
  | ok outcome =>
    obtain ⟨_, hreports, rfl⟩ := hreply
    exact ⟨hreports, rfl⟩
  | error e => exact hreply

/-- An update executes every unit once. -/
theorem replies_update (hk : k.Kept d.provider) {p : StatementExecutor × W}
    (hp : Loaded k units executed p) (hunits : units ≠ []) :
    (update d).Replies p fun reply q =>
      match reply with
      | .ok outcomes =>
          List.Forall₂ (fun u outcome => k.reports [u] [outcome.affected]) units outcomes ∧
            k.Holds (0, units + executed) q.2
      | .error _ => k.Excused d units := by
  refine (replies_runAll (runs_update hk) hp hunits).mono fun reply q hreply => ?_
  cases reply with
  | error e => exact hreply
  | ok outcomes =>
    obtain ⟨hvalues, hholds⟩ := hreply
    rw [sum_singleton_units] at hholds
    refine ⟨?_, hholds⟩
    rw [← map_unit_indexUnits units]
    exact List.forall₂_map_left_iff.2 hvalues

theorem settle_owns (hk : k.Kept d.provider) (mode : ConnectionMode) (source : Source) (m : Part) :
    (settle d.provider mode source).Owns k.Holds (Answering fun reply m' =>
      match reply with
      | .ok _ => m' = m
      | .error _ => True) m := by
  cases mode with
  | streaming => exact Program.owns_pure rfl
  | buffered =>
    refine Owns.ofAct fun w f hw => replies_ofStep.2 ⟨m, ?_, ?_⟩
    · exact (hk.keeps_closeCursor _).drain source hw
    · cases (source.drain d.provider.closeCursor w).1 with
      | ok _ => rfl
      | error _ => trivial

/-- An execution of unknown kind that is run alone. -/
theorem runs_execute (hk : k.Kept d.provider) :
    k.Runs (fun u mode => do
      match ← Program.ofAct (d.provider.execute u.statement) with
      | .rows source => return Outcome.rows (← settle d.provider mode source)
      | .update outcome => return .update outcome) PreparedUnit.bound
      (fun u => {u.unit}) (fun _ _ => True) fun _ => True := by
  intro u mode
  refine Answering.bind (hk.execute u.statement).owns.ofAct ?_ fun _ _ _ => trivial
  intro outcome m hm
  obtain ⟨s', -, rfl⟩ := hm
  cases outcome with
  | update outcome => exact Program.owns_pure ⟨trivial, rfl⟩
  | rows source =>
    refine Answering.bind (settle_owns hk mode source _) ?_ fun _ _ _ => trivial
    intro source' m hm
    subst hm
    exact Program.owns_pure ⟨trivial, rfl⟩

/-- An execution executes every unit once, whatever the units return. -/
theorem replies_execute (hk : k.Kept d.provider) {p : StatementExecutor × W}
    (hp : Loaded k units executed p) (hunits : units ≠ []) :
    (execute d).Replies p fun reply q =>
      match reply with
      | .ok _ => k.Holds (0, units + executed) q.2
      | .error _ => True := by
  refine (replies_runAll (runs_execute hk) hp hunits).mono fun reply q hreply => ?_
  cases reply with
  | error e => trivial
  | ok outcomes =>
    obtain ⟨-, hholds⟩ := hreply
    rwa [sum_singleton_units] at hholds

end StatementExecutor

end Sharding
