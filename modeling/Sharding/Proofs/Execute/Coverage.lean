import Sharding.Proofs.Execute.Calls
import Sharding.Proofs.Execute.Journaled

/-!
# What is prepared

The plans of a call take up each of its units once, and the units of a shard are cut into no more
plans than it may have connections (`length_filter_planGroups_le`).  Cutting `n` units into pieces
of `ceilDiv n c` units may leave fewer pieces than `c`, but none without a unit.  Only where each
unit can have a connection, every plan has one unit, whose rows are read when they are asked for.

`ExecutionGroup.Cover` says the same of prepared groups, and `prepareGroups_covers` that all groups
that are prepared are such, each on a connection to its shard, with one new statement for the text
of each of its units.
-/

namespace Sharding

open Act

variable {W : Type} {p : Provider W} {limit : Nat} {units : List RouteUnit}

/-! ## Plans of a shard -/

/-- The units of a shard are cut into no more plans than it may have connections. -/
theorem length_planShard_le (limit : Nat) (shard : String) (us : List IndexedUnit) :
    (planShard limit shard us).length ≤ max 1 limit := by
  rw [planShard, List.length_map]
  cases us with
  | nil => simp [chunks]
  | cons u us =>
    have hconnections : 0 < min (u :: us).length (max limit 1) := by
      rw [List.length_cons]
      omega
    have hcut := length_chunks_le (le_mul_ceilDiv (u :: us).length hconnections)
    exact hcut.trans (by omega)

/-- A plan has some of the units of its shard in their order.  When they are all streamed, each has
a connection, and so has each piece of them one unit. -/
theorem of_mem_planShard {shard : String} {us : List IndexedUnit} {plan : ExecutionPlan}
    (h : plan ∈ planShard limit shard us) :
    plan.shard = shard ∧ plan.units.Sublist us ∧
      (plan.mode = .streaming ↔ us.length ≤ max 1 limit) ∧
      (plan.mode = .streaming → plan.units.length = 1) := by
  obtain ⟨chunk, hchunk, rfl⟩ := List.mem_map.1 h
  have hne := ne_nil_of_mem_chunks hchunk
  have hsub : chunk.Sublist us := by
    have hflat := List.sublist_flatten_of_mem hchunk
    rwa [flatten_chunks] at hflat
  have hpos : 0 < chunk.length := List.length_pos_of_ne_nil hne
  have hle := hsub.length_le
  have hmode : (if min us.length (max limit 1) < us.length then ConnectionMode.buffered
      else .streaming) = .streaming ↔ us.length ≤ max 1 limit := by
    split <;> simp <;> omega
  refine ⟨rfl, hsub, hmode, fun hstreaming => ?_⟩
  have hfew := hmode.1 hstreaming
  have hconnections : min us.length (max limit 1) = us.length := by omega
  have hone : ceilDiv us.length us.length = 1 := by
    rw [ceilDiv]
    exact Nat.div_eq_of_lt_le (by omega) (by omega)
  have hlength := length_le_of_mem_chunks hchunk
  rw [hconnections, hone] at hlength
  show chunk.length = 1
  omega

/-! ## Plans of a call -/

theorem filter_flatMap_planShard {shards : List String} (hshards : shards.Nodup)
    (us : List IndexedUnit) (shard : String) :
    (shards.flatMap fun s => planShard limit s (us.filter (·.unit.shard == s))).filter
        (·.shard == shard) =
      if shard ∈ shards then planShard limit shard (us.filter (·.unit.shard == shard)) else [] := by
  induction shards with
  | nil => rfl
  | cons s shards ih =>
    obtain ⟨hs, hshards⟩ := List.nodup_cons.1 hshards
    rw [List.flatMap_cons, List.filter_append, ih hshards]
    by_cases hsame : s = shard
    · subst hsame
      have hall : (planShard limit s (us.filter (·.unit.shard == s))).filter (·.shard == s) =
          planShard limit s (us.filter (·.unit.shard == s)) :=
        List.filter_eq_self.2 fun plan hplan => beq_iff_eq.2 (of_mem_planShard hplan).1
      rw [hall, if_neg hs, if_pos List.mem_cons_self, List.append_nil]
    · have hnone : (planShard limit s (us.filter (·.unit.shard == s))).filter (·.shard == shard) =
          [] :=
        List.filter_eq_nil_iff.2 fun plan hplan => by
          rw [(of_mem_planShard hplan).1, beq_iff_eq]
          exact hsame
      have hmem : shard ∈ s :: shards ↔ shard ∈ shards := by
        rw [List.mem_cons, or_iff_right (Ne.symm hsame)]
      rw [hnone, List.nil_append]
      simp only [hmem]

/-- The plans of one shard among all plans. -/
theorem length_filter_planGroups_le (limit : Nat) (units : List RouteUnit) (shard : String) :
    ((planGroups limit units).filter (·.shard == shard)).length ≤ max 1 limit := by
  rw [planGroups, filter_flatMap_planShard (nodup_distinct _)]
  split
  · exact length_planShard_le ..
  · exact Nat.zero_le _

theorem length_filter_indexUnits (units : List RouteUnit) (shard : String) :
    ((indexUnits units).filter (·.unit.shard == shard)).length =
      (units.filter (·.shard == shard)).length := by
  conv => rhs; rw [← map_unit_indexUnits units]
  rw [List.filter_map, List.length_map]
  rfl

theorem pairwise_index_indexUnits (units : List RouteUnit) :
    (indexUnits units).Pairwise (·.index < ·.index) := by
  have hrange : (List.range units.length).Pairwise (· < ·) := List.pairwise_lt_range
  rw [← map_index_indexUnits] at hrange
  exact List.pairwise_map.1 hrange

/-- The plan has units of one shard in unit order.  Their rows are streamed exactly if the shard has
no more units than connections, and then the plan has one unit. -/
structure ExecutionPlan.Fits (plan : ExecutionPlan) (limit : Nat) (units : List RouteUnit) : Prop
    extends plan.Uniform where
  unit : ∀ u ∈ plan.units, units[u.index]? = some u.unit
  ordered : plan.units.Pairwise (·.index < ·.index)
  mode : plan.mode = .streaming ↔ (units.filter (·.shard == plan.shard)).length ≤ max 1 limit
  alone : plan.mode = .streaming → plan.units.length = 1

theorem fits_of_mem_planGroups {plan : ExecutionPlan} (h : plan ∈ planGroups limit units) :
    plan.Fits limit units := by
  have huniform := uniform_of_mem_planGroups h
  obtain ⟨shard, -, hplan⟩ := List.mem_flatMap.1 h
  obtain ⟨rfl, hsub, hmode, hone⟩ := of_mem_planShard hplan
  have hall := hsub.trans List.filter_sublist
  exact {
    toUniform := huniform
    unit := fun u hu => mem_indexUnits.1 (hall.subset hu)
    ordered := (pairwise_index_indexUnits units).sublist hall
    mode := by rwa [length_filter_indexUnits] at hmode
    alone := hone }

/-! ## Groups -/

/-- What the group was planned as. -/
def ExecutionGroup.plan (g : ExecutionGroup) : ExecutionPlan where
  shard := g.shard
  mode := g.mode
  units := g.units.map (·.toIndexedUnit)

/-- The groups have each unit of a call once, and a shard has at most `limit` of them, or one. -/
structure ExecutionGroup.Cover (limit : Nat) (units : List RouteUnit)
    (groups : List ExecutionGroup) : Prop where
  once : ((groups.flatMap (·.units)).map (·.index)).Perm (List.range units.length)
  fits : ∀ g ∈ groups, g.plan.Fits limit units
  few : ∀ shard, (groups.filter (·.shard == shard)).length ≤ max 1 limit

theorem map_plan_of_follows {groups : List ExecutionGroup} {plans : List ExecutionPlan}
    (h : List.Forall₂ ExecutionGroup.Follows groups plans) : groups.map (·.plan) = plans := by
  induction h with
  | nil => rfl
  | @cons g plan _ _ hg _ ih =>
    have hplan : g.plan = plan := by
      rw [ExecutionGroup.plan, hg.shard, hg.mode, hg.units]
    rw [List.map_cons, hplan, ih]

/-- Groups that follow the plans of a call cover it. -/
theorem cover_of_follows {groups : List ExecutionGroup}
    (h : List.Forall₂ ExecutionGroup.Follows groups (planGroups limit units)) :
    ExecutionGroup.Cover limit units groups := by
  have hplans := map_plan_of_follows h
  refine { once := ?_, fits := ?_, few := ?_ }
  · have hunits : (groups.flatMap (·.units)).map (·.toIndexedUnit) = unitsByShard units := by
      rw [units_of_follows h, flatMap_planGroups]
    have hperm := (perm_unitsByShard units).map (·.index)
    rw [map_index_indexUnits, ← hunits, List.map_map] at hperm
    exact hperm
  · intro g hg
    refine fits_of_mem_planGroups ?_
    rw [← hplans]
    exact List.mem_map_of_mem hg
  · intro shard
    have hfew := length_filter_planGroups_le limit units shard
    rwa [← hplans, List.filter_map, List.length_map] at hfew

/-- Groups that are prepared have each unit once, within the limit of connections.  Each group has a
connection to its shard, and one new statement for the text of each of its units; so there are as
many as units. -/
theorem prepareGroups_covers {groups : List ExecutionGroup} {w w' : W}
    (h : (prepareGroups p limit units).run w = (.ok groups, w')) :
    ExecutionGroup.Cover limit units groups ∧
      ∃ connections, connections.length = groups.length ∧
        (∀ log, (prepareGroups p.logged limit units).run (w, log) =
          (.ok groups, w', log ++ callsOf groups connections)) ∧
        preparedIn (callsOf groups connections) =
          (groups.flatMap (·.units)).map (·.statement) ∧
        (preparedIn (callsOf groups connections)).length = units.length := by
  obtain ⟨calls, hrun, hreply⟩ := logs_prepareGroups (p := p) limit units w
  rw [h] at hrun hreply
  obtain ⟨hfollows, connections, hlength, rfl⟩ := hreply
  have hcover := cover_of_follows hfollows
  have hprepared := preparedIn_callsOf hlength
  refine ⟨hcover, connections, hlength, hrun, hprepared, ?_⟩
  have hcount := hcover.once.length_eq
  rw [List.length_map, List.length_range] at hcount
  rw [hprepared, List.length_map, hcount]

/-- Three units, of which two are on one shard. -/
def unitsOnTwo : List RouteUnit :=
  [⟨"ds_0", "SELECT a", []⟩, ⟨"ds_1", "SELECT b", []⟩, ⟨"ds_0", "SELECT c", []⟩]

/-- With one connection to a shard, the units of the first one share a group. -/
def groupsOnTwo : List ExecutionGroup :=
  [⟨"ds_0", .buffered, [⟨⟨0, ⟨"ds_0", "SELECT a", []⟩⟩, 0⟩, ⟨⟨2, ⟨"ds_0", "SELECT c", []⟩⟩, 1⟩]⟩,
    ⟨"ds_1", .streaming, [⟨⟨1, ⟨"ds_1", "SELECT b", []⟩⟩, 2⟩]⟩]

/-- They are prepared in memory. -/
theorem prepareGroups_covers_two : ExecutionGroup.Cover 1 unitsOnTwo groupsOnTwo := by
  have hplans : planGroups 1 unitsOnTwo =
      [⟨"ds_0", .buffered, [⟨0, ⟨"ds_0", "SELECT a", []⟩⟩, ⟨2, ⟨"ds_0", "SELECT c", []⟩⟩]⟩,
        ⟨"ds_1", .streaming, [⟨1, ⟨"ds_1", "SELECT b", []⟩⟩]⟩] := by cbv
  have hreply : ((prepareGroups Memory.provider 1 unitsOnTwo).run
      (Memory.ofShards ["ds_0", "ds_1"])).1 = .ok groupsOnTwo := by
    rw [prepareGroups, hplans]
    rfl
  exact (prepareGroups_covers (Prod.ext hreply rfl)).1

end Sharding
