import Sharding.Proofs.Execute.Resources
import Sharding.Proofs.Program.Recording

/-!
# What a dispatched call reports

When the result of a unit depends on nothing but the unit, a dispatched call reports it whatever
the number of workers and their turns are.  `Dispatcher.dispatch_reports` says what is reported: all
values in unit order, or all failures in unit order while every value is discarded.

It also says who does the work.  The groups are shared out among the workers
(`Dispatcher.workloads`), each group to one of them, and a worker runs its units one after the other.
This shows in every log that the units append to: what is appended is an interleaving of what the
workers append, each of them the entries of its units in order.
-/

namespace Sharding

/-- Units with different numbers stand in strict order once they are sorted. -/
theorem pairwise_mergeSort_index {units : List PreparedUnit} (h : (units.map (·.index)).Nodup) :
    (units.mergeSort fun u v => u.index ≤ v.index).Pairwise (·.index < ·.index) := by
  have hperm := units.mergeSort_perm fun u v => u.index ≤ v.index
  have hle : (units.mergeSort fun u v => u.index ≤ v.index).Pairwise (·.index ≤ ·.index) :=
    pairwise_mergeSort_key (fun u : PreparedUnit => u.index) units
  have hnodup : ((units.mergeSort fun u v => u.index ≤ v.index).map (·.index)).Nodup :=
    (hperm.map _).nodup_iff.2 h
  have hne : (units.mergeSort fun u v => u.index ≤ v.index).Pairwise (·.index ≠ ·.index) :=
    List.pairwise_map.1 hnodup
  exact hle.imp₂ (fun _ _ => Nat.lt_of_le_of_ne) hne

namespace Dispatcher

variable {W α ε : Type} {good : W → Prop} {log : W → List ε} {d : Dispatcher W}
  {run : UnitRun W α} {reply : PreparedUnit → Except Error α} {entries : PreparedUnit → List ε}

/-! ## The work of each worker -/

/-- The groups that each worker runs.  A caller who runs all units is the only worker. -/
def workloads (d : Dispatcher W) (groups : List ExecutionGroup) : List (List ExecutionGroup) :=
  if d.runsInline groups then [groups] else d.shares groups

/-- Every group is run by exactly one worker. -/
theorem flatten_workloads (groups : List ExecutionGroup) :
    (d.workloads groups).flatten = groups := by
  unfold workloads
  split
  · exact List.flatten_singleton
  · exact d.flatten_shares groups

theorem length_workloads_le (groups : List ExecutionGroup) :
    (d.workloads groups).length ≤ max 1 d.workers := by
  unfold workloads
  split
  · exact Nat.le_max_left ..
  · rename_i hinline
    simp only [runsInline, Bool.or_eq_true, decide_eq_true_eq, not_or, not_le] at hinline
    have hworkers : 0 < min d.workers groups.length := by omega
    have hshares : (d.shares groups).length ≤ min d.workers groups.length :=
      length_chunks_le (le_mul_ceilDiv groups.length hworkers)
    omega

/-! ## Outcomes -/

/-- The outcome of a unit that replies so. -/
def outcomeOf (reply : PreparedUnit → Except Error α) (u : PreparedUnit) : UnitOutcome α :=
  ⟨u.toIndexedUnit, reply u⟩

/-- The values among the replies of some units. -/
def valuesOf (reply : PreparedUnit → Except Error α) (units : List PreparedUnit) : List α :=
  units.filterMap fun u => (reply u).toOption

/-- The failures among the replies of some units. -/
def failuresOf (reply : PreparedUnit → Except Error α) (units : List PreparedUnit) :
    List (UnitFailure Error) :=
  units.filterMap fun u => (outcomeOf reply u).failure?

/-- In every world that is `good`, a unit ends with its reply and appends its entries. -/
def Replying (good : W → Prop) (log : W → List ε) (run : UnitRun W α)
    (reply : PreparedUnit → Except Error α) (entries : PreparedUnit → List ε)
    (groups : List ExecutionGroup) : Prop :=
  ∀ g ∈ groups, ∀ u ∈ g.units,
    (run u g.mode).Records good log ((reply u).mapError .error) (entries u)

theorem records_runUnit (hidle : ∀ w, good w → d.token.isSet w = false) {mode : ConnectionMode}
    {u : PreparedUnit}
    (h : (run u mode).Records good log ((reply u).mapError .error) (entries u)) :
    (d.runUnit run mode u).Records good log (.ok (outcomeOf reply u)) (entries u) := by
  have hread : (Program.ofAct d.token.read).Records good log (.ok false) [] :=
    Program.records_ofAct fun w hw =>
      ⟨congrArg _ (hidle w hw), hw, (List.append_nil _).symm⟩
  have hrun : (do return ⟨u.toIndexedUnit, ← (run u mode).attempt⟩ :
      Program W (UnitOutcome α)).Records good log (.ok (outcomeOf reply u)) (entries u ++ []) :=
    h.attempt.bind (Program.records_pure _)
  rw [List.append_nil] at hrun
  exact hread.bind hrun

theorem records_runGroup (hidle : ∀ w, good w → d.token.isSet w = false) {g : ExecutionGroup}
    (h : ∀ u ∈ g.units, (run u g.mode).Records good log ((reply u).mapError .error) (entries u)) :
    (d.runGroup run g).Records good log (.ok (g.units.map (outcomeOf reply)))
      (g.units.flatMap entries) :=
  Program.records_mapM fun u hu => records_runUnit hidle (h u hu)

/-- The entries of a worker, unit by unit. -/
def entriesOf (entries : PreparedUnit → List ε) (groups : List ExecutionGroup) : List ε :=
  groups.flatMap fun g => g.units.flatMap entries

theorem records_runGroups (hidle : ∀ w, good w → d.token.isSet w = false)
    {groups : List ExecutionGroup} (h : Replying good log run reply entries groups) :
    (d.runGroups run groups).Records good log
      (.ok ((groups.flatMap (·.units)).map (outcomeOf reply))) (entriesOf entries groups) := by
  have hgroups := Program.records_mapM fun g hg => records_runGroup hidle (h g hg)
  rw [runGroups, ← List.append_nil (entriesOf entries groups), List.map_flatMap, List.flatMap_def]
  exact hgroups.bind (Program.records_pure _)

theorem map_outcomeOf_flatten (shares : List (List ExecutionGroup)) :
    (shares.flatten.flatMap (·.units)).map (outcomeOf reply) =
      (shares.map fun share => (share.flatMap (·.units)).map (outcomeOf reply)).flatten := by
  induction shares with
  | nil => rfl
  | cons share shares ih => simp [ih]

/-- The outcomes of a dispatched call stand in the order of its groups. -/
theorem dispatch_records (hidle : ∀ w, good w → d.token.isSet w = false)
    {groups : List ExecutionGroup} (h : Replying good log run reply entries groups) {w : W}
    (hw : good w) :
    ∃ w' out,
      (d.dispatch run groups).run w = (.ok ((groups.flatMap (·.units)).map (outcomeOf reply)), w') ∧
      log w' = log w ++ out ∧ Interleaves ((d.workloads groups).map (entriesOf entries)) out := by
  unfold dispatch workloads
  by_cases hinline : d.runsInline groups = true
  · rw [if_pos hinline, if_pos hinline]
    obtain ⟨hresult, -, hlog⟩ := (records_runGroups hidle h).run hw
    refine ⟨_, _, Prod.ext hresult rfl, hlog, ?_⟩
    simpa using Interleaves.flatten [entriesOf entries groups]
  · rw [if_neg hinline, if_neg hinline]
    have hmem : ∀ share ∈ d.shares groups, ∀ g ∈ share, g ∈ groups := fun share hshare g hg => by
      rw [← d.flatten_shares groups]
      exact List.mem_flatten.2 ⟨share, hshare, hg⟩
    have hrecords : Program.Recording good log ((d.shares groups).map (d.runGroups run))
        ((d.shares groups).map fun share =>
          (.ok ((share.flatMap (·.units)).map (outcomeOf reply)), entriesOf entries share)) :=
      List.forall₂_map_left_iff.2 (List.forall₂_map_right_iff.2 (List.forall₂_same.2
        fun share hshare => records_runGroups hidle fun g hg => h g (hmem share hshare g hg)))
    obtain ⟨out, hresults, -, hlog, hout⟩ := Program.interleave_records (d.turns w) hrecords hw
    rw [List.map_map] at hresults hout
    refine ⟨_, out, Prod.ext ?_ rfl, hlog, hout⟩
    show Except.ok (List.zipWith outcomesOf _ (Program.interleave _ _ _).1).flatten = _
    rw [hresults, List.zipWith_map_right, List.zipWith_self]
    exact congrArg Except.ok ((map_outcomeOf_flatten _).symm.trans
      (by rw [d.flatten_shares groups]))

/-! ## Reports -/

theorem inOrder_map_outcomeOf (units : List PreparedUnit) :
    UnitOutcome.inOrder (units.map (outcomeOf reply)) =
      (units.mergeSort fun u v => u.index ≤ v.index).map (outcomeOf reply) :=
  (List.map_mergeSort (f := outcomeOf reply) fun _ _ _ _ => rfl).symm

theorem sorted_failuresOf {units : List PreparedUnit}
    (hsorted : units.Pairwise (·.index < ·.index)) :
    (failuresOf reply units).mergeSort (fun a b => a.unit ≤ b.unit) = failuresOf reply units := by
  refine List.mergeSort_of_pairwise (List.Pairwise.filterMap _ ?_ hsorted)
  intro u v huv failure hu failure' hv
  unfold UnitOutcome.failure? outcomeOf at hu hv
  dsimp only at hu hv
  split at hu
  · cases hu
  split at hv
  · cases hv
  cases hu
  cases hv
  exact decide_eq_true (Nat.le_of_lt huv)

/-- Units that all succeed have their values in unit order. -/
theorem valuesOf_of_succeeding {units : List PreparedUnit} {values : List α}
    (h : units.map reply = values.map .ok) : valuesOf reply units = values := by
  have htoOption : valuesOf reply units = (units.map reply).filterMap (·.toOption) := by
    rw [List.filterMap_map]
    rfl
  rw [htoOption, h, List.filterMap_map]
  exact List.filterMap_some

/-- No unit fails when all of them have values. -/
theorem failuresOf_eq_nil_iff {units : List PreparedUnit} :
    failuresOf reply units = [] ↔ ∃ values : List α, units.map reply = values.map .ok := by
  induction units with
  | nil => exact ⟨fun _ => ⟨[], rfl⟩, fun _ => rfl⟩
  | cons u units ih =>
    cases hu : reply u with
    | ok a =>
      have hskip : failuresOf reply (u :: units) = failuresOf reply units := by
        rw [failuresOf, List.filterMap_cons, UnitOutcome.failure?, outcomeOf, hu]
        rfl
      rw [hskip, ih, List.map_cons, hu]
      constructor
      · rintro ⟨values, hvalues⟩
        exact ⟨a :: values, congrArg _ hvalues⟩
      · rintro ⟨values, hvalues⟩
        cases values with
        | nil => cases hvalues
        | cons _ values => exact ⟨values, (List.cons.inj hvalues).2⟩
    | error e =>
      refine iff_of_false ?_ ?_
      · rw [failuresOf, List.filterMap_cons, UnitOutcome.failure?, outcomeOf, hu]
        exact List.cons_ne_nil _ _
      · rintro ⟨values, hvalues⟩
        rw [List.map_cons, hu] at hvalues
        cases values <;> cases hvalues

theorem values_map_outcomeOf (units : List PreparedUnit) :
    UnitOutcome.values (units.map (outcomeOf reply)) =
      valuesOf reply (units.mergeSort fun u v => u.index ≤ v.index) := by
  rw [UnitOutcome.values, inOrder_map_outcomeOf, List.filterMap_map]
  rfl

theorem failures_map_outcomeOf (units : List PreparedUnit) :
    UnitOutcome.failures (units.map (outcomeOf reply)) =
      failuresOf reply (units.mergeSort fun u v => u.index ≤ v.index) := by
  rw [UnitOutcome.failures, inOrder_map_outcomeOf, List.filterMap_map]
  rfl

/-- What is collected from the outcomes of some units: their values in unit order, or their failures
in unit order while the values are discarded. -/
theorem collectOutcomes_reports (discard : α → W → W) {units : List PreparedUnit}
    (hdistinct : (units.map (·.index)).Nodup) (w : W) :
    ∃ sorted, sorted.Perm units ∧ sorted.Pairwise (·.index < ·.index) ∧
      (∀ values, sorted.map reply = values.map .ok →
        (collectOutcomes discard (units.map (outcomeOf reply))).run w = (.ok values, w)) ∧
      ((∃ u ∈ sorted, ∃ e, reply u = .error e) →
        (collectOutcomes discard (units.map (outcomeOf reply))).run w =
          (.error (.error (.execution (failuresOf reply sorted) sorted.length)),
            (valuesOf reply sorted).foldl (fun w a => discard a w) w)) := by
  have hsorted := pairwise_mergeSort_index hdistinct
  have hperm := units.mergeSort_perm fun u v => u.index ≤ v.index
  refine ⟨_, hperm, hsorted, ?_⟩
  rw [collectOutcomes_eq, values_map_outcomeOf, failures_map_outcomeOf, List.length_map,
    ← hperm.length_eq]
  generalize units.mergeSort (fun u v => u.index ≤ v.index) = sorted at hsorted
  constructor
  · intro values hok
    have hnone : failuresOf reply sorted = [] := failuresOf_eq_nil_iff.2 ⟨values, hok⟩
    rw [hnone, List.isEmpty_nil, if_pos rfl, valuesOf_of_succeeding hok]
    rfl
  · rintro ⟨u, hu, e, he⟩
    have hsome : failuresOf reply sorted ≠ [] := fun hnil => by
      obtain ⟨values, hvalues⟩ := failuresOf_eq_nil_iff.1 hnil
      have hmem : reply u ∈ values.map .ok := hvalues ▸ List.mem_map_of_mem hu
      obtain ⟨a, -, ha⟩ := List.mem_map.1 hmem
      rw [he] at ha
      cases ha
    rw [if_neg (by simpa using hsome), Error.ofFailures, sorted_failuresOf hsorted]
    rfl

/-- Every unit is reported once and in unit order, whatever the number of workers and their turns
are, as long as the result of a unit depends on the unit alone and nothing is cancelled.

* When all units succeed, their values are returned.  Otherwise the call fails with exactly the
  failures of its units, and every value is discarded.
* The groups are shared out among at most `max 1 d.workers` workers.  What the units append to a log
  is an interleaving of the entries of the workers, each of which runs its groups in order. -/
theorem dispatch_reports (hidle : ∀ w, good w → d.token.isSet w = false)
    {groups : List ExecutionGroup} (hdistinct : ((groups.flatMap (·.units)).map (·.index)).Nodup)
    (hreply : Replying good log run reply entries groups) (discard : α → W → W) {w : W}
    (hw : good w) :
    ∃ units w' out,
      units.Perm (groups.flatMap (·.units)) ∧ units.Pairwise (·.index < ·.index) ∧
      (∀ values, units.map reply = values.map .ok →
        (do collectOutcomes discard (← d.dispatch run groups) : Act W (List α)).run w =
          (.ok values, w')) ∧
      ((∃ u ∈ units, ∃ e, reply u = .error e) →
        (do collectOutcomes discard (← d.dispatch run groups) : Act W (List α)).run w =
          (.error (.error (.execution (failuresOf reply units) units.length)),
            (valuesOf reply units).foldl (fun w a => discard a w) w')) ∧
      (d.workloads groups).flatten = groups ∧ (d.workloads groups).length ≤ max 1 d.workers ∧
      log w' = log w ++ out ∧ Interleaves ((d.workloads groups).map (entriesOf entries)) out := by
  obtain ⟨w', out, hdispatch, hlog, hout⟩ := dispatch_records hidle hreply hw
  obtain ⟨units, hperm, hsorted, hvalues, hfailures⟩ :=
    collectOutcomes_reports discard hdistinct w'
  refine ⟨units, w', out, hperm, hsorted, ?_, ?_, flatten_workloads groups,
    length_workloads_le groups, hlog, hout⟩
  · intro values hok
    rw [Act.run_bind, hdispatch]
    exact hvalues values hok
  · intro hfails
    rw [Act.run_bind, hdispatch]
    exact hfailures hfails

/-! Two workers connect to three shards, one of which is unknown. -/

/-- The provider in memory, a token, and the units and connections that were noted. -/
abbrev Noting := Memory × Bool × List Nat

/-- Notes a number. -/
def note (n : Nat) (w : Noting) : Noting :=
  (w.1, w.2.1, w.2.2 ++ [n])

/-- Notes a unit and connects to its shard. -/
def connectNoted : UnitRun Noting Connection := fun u _ => do
  Program.ofAct (Act.effect (note u.index))
  Program.ofAct ((Memory.beside _).connect u.unit.shard)

/-- The connection of a unit to one of two shards. -/
def connection (u : PreparedUnit) : Except Error Connection :=
  match u.unit.shard with
  | "ds_0" => .ok ⟨"ds_0", 0⟩
  | "ds_1" => .ok ⟨"ds_1", 1⟩
  | shard => .error (.connection shard "unknown shard")

/-- Two shards in memory, and nothing noted. -/
def unnoted : Noting :=
  (Memory.ofShards ["ds_0", "ds_1"], false, [])

/-- Two workers, of which the second makes the first call. -/
def twoWorkers : Dispatcher Noting where
  provider := Memory.beside _
  token := CancelToken.beside
    { isSet := Prod.fst, put := fun b notes => (b, notes.2), isSet_put := fun _ _ => rfl }
  workers := 2
  connections := 1
  turns _ := [1, 1, 0]

/-- A unit that runs a statement on a shard. -/
def unitOn (index : Nat) (shard : String) : PreparedUnit where
  index := index
  unit := { shard, sql := "SELECT 1", params := [] }
  statement := index

/-- The group of the first shard has two units, and the shard of the last one is unknown. -/
def threeGroups : List ExecutionGroup :=
  [⟨"ds_0", .buffered, [unitOn 0 "ds_0", unitOn 2 "ds_0"]⟩,
    ⟨"ds_1", .streaming, [unitOn 3 "ds_1"]⟩, ⟨"ds_9", .streaming, [unitOn 1 "ds_9"]⟩]

/-- The connections of all units.  The number of one that is discarded is noted. -/
def connectAll : Act Noting (List Connection) := do
  collectOutcomes (fun c => note c.number) (← twoWorkers.dispatch connectNoted threeGroups)

theorem replying_connectNoted :
    Replying (fun w : Noting => w.1.shards = unnoted.1.shards ∧ w.2.1 = false) (fun w => w.2.2)
      connectNoted connection (fun u => [u.index]) threeGroups := by
  have hconnect : ∀ u ∈ threeGroups.flatMap (·.units),
      (((Memory.beside _).connect u.unit.shard).run unnoted).1 =
        (connection u).mapError .error := by
    simp only [threeGroups, List.flatMap_cons, List.flatMap_nil, List.cons_append, List.nil_append,
      List.forall_mem_cons]
    exact ⟨rfl, rfl, rfl, rfl, fun _ h => absurd h List.not_mem_nil⟩
  intro g hg u hu
  obtain ⟨answer, hrun, -⟩ := Memory.run_connect u.unit.shard unnoted
  have hanswer := hconnect u (List.mem_flatMap.2 ⟨g, hg, hu⟩)
  rw [hrun unnoted rfl] at hanswer
  have hnote : (Program.ofAct (Act.effect (note u.index))).Records
      (fun w : Noting => w.1.shards = unnoted.1.shards ∧ w.2.1 = false) (fun w => w.2.2)
      (.ok ()) [u.index] :=
    Program.records_ofAct fun w hw => ⟨rfl, hw, rfl⟩
  refine hnote.bind (Program.records_ofAct fun w hw => ?_)
  rw [hrun w hw.1]
  exact ⟨hanswer, hw, (List.append_nil _).symm⟩

theorem dispatch_reports_unknown :
    ∃ w' out, connectAll.run unnoted =
        (.error (.error (.execution
          [(unitOn 1 "ds_9").failure (.connection "ds_9" "unknown shard")] 4)), w') ∧
      w'.2.2 = out ++ [0, 0, 1] ∧ Interleaves [[0, 2, 3], [1]] out := by
  have hdistinct : ((threeGroups.flatMap (·.units)).map (·.index)).Nodup := by decide
  obtain ⟨units, w', out, hperm, hsorted, -, hfails, -, -, hlog, hout⟩ :=
    dispatch_reports (d := twoWorkers) (fun _ hw => hw.2) hdistinct replying_connectNoted
      (fun c => note c.number) (w := unnoted) ⟨rfl, rfl⟩
  obtain rfl : units = [unitOn 0 "ds_0", unitOn 1 "ds_9", unitOn 2 "ds_0", unitOn 3 "ds_1"] := by
    have hlast : ([unitOn 2 "ds_0", unitOn 3 "ds_1"] ++ [unitOn 1 "ds_9"]).Perm
        ([unitOn 1 "ds_9"] ++ [unitOn 2 "ds_0", unitOn 3 "ds_1"]) := List.perm_append_comm
    have hantisymm : ∀ u v : PreparedUnit, u.index < v.index → v.index < u.index → u = v :=
      fun u v huv hvu => absurd huv (Nat.lt_asymm hvu)
    exact (hperm.trans (hlast.cons (unitOn 0 "ds_0"))).eq_of_pairwise
      (fun u v _ _ => hantisymm u v) hsorted (by decide)
  have hworkloads : (twoWorkers.workloads threeGroups).map (entriesOf fun u => [u.index]) =
      [[0, 2, 3], [1]] := by
    have hchunks : twoWorkers.shares threeGroups = chunks 2 threeGroups := rfl
    have hinline : twoWorkers.runsInline threeGroups = false := rfl
    rw [workloads, hinline, hchunks]
    simp [threeGroups, chunks, entriesOf, unitOn]
  rw [hworkloads] at hout
  refine ⟨_, out, hfails ⟨unitOn 1 "ds_9", by simp, _, rfl⟩, ?_, hout⟩
  show w'.2.2 ++ [0] ++ [0] ++ [1] = _
  rw [hlog]
  simp [unnoted]

end Dispatcher

end Sharding
