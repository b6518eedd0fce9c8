import Sharding.Proofs.Execute.Journaled
import Sharding.Proofs.Execute.Shifts
import Sharding.Proofs.Handles.Exact
import Sharding.Proofs.Provider.MemoryBooks
import Sharding.Proofs.Sorting.Orders

/-!
# Workers that crash

When a worker crashes, the values of the units that it ran before are lost: they are neither
returned nor discarded.  The values of the other workers are returned, or discarded when the call
fails.

* `Shift.kept` and `Shift.lost` are the values of the workers that came to their end and of those
  that crashed.
* `StatementExecutor.endsByShifts_runAll` puts the shifts of all workers together.
* `StatementExecutor.cursors_after_crash` says which cursors stay open after a query or an
  execution: those of the lost values, and no others.
-/

namespace Sharding

open Program

variable {W α : Type}

/-! ## What workers report -/

namespace Shift

/-- The values of the workers that came to their end. -/
def kept (shifts : List (Shift α)) : List α :=
  (shifts.filter (·.crashedAt.isNone)).flatMap values

/-- The values of the workers that crashed. -/
def lost (shifts : List (Shift α)) : List α :=
  (shifts.filter (·.crashedAt.isSome)).flatMap values

theorem perm_kept_lost (shifts : List (Shift α)) :
    (kept shifts ++ lost shifts).Perm (shifts.flatMap values) := by
  rw [kept, lost, ← List.flatMap_append]
  refine List.Perm.flatMap_right values ?_
  have hsplit := List.filter_append_perm (fun s : Shift α => s.crashedAt.isNone) shifts
  simpa only [Option.not_isNone] using hsplit

theorem lost_eq_nil {shifts : List (Shift α)} (h : ∀ s ∈ shifts, s.crashedAt = none) :
    lost shifts = [] := by
  have hnone : shifts.filter (·.crashedAt.isSome) = [] := by
    refine List.filter_eq_nil_iff.2 fun s hs => ?_
    rw [h s hs]
    exact Bool.false_ne_true
  rw [lost, hnone]
  rfl

/-- What a worker reports. -/
def reports (share : List ExecutionGroup) (s : Shift α) : List (UnitOutcome α) :=
  Dispatcher.outcomesOf share s.result

/-- A worker that crashed reports no values. -/
theorem values_reports (share : List ExecutionGroup) (s : Shift α) :
    (s.reports share).filterMap (fun o => o.result.toOption) =
      if s.crashedAt.isNone then s.values else [] := by
  obtain ⟨outcomes, _ | u⟩ := s
  · rfl
  · refine List.filterMap_eq_nil_iff.2 fun o ho => ?_
    obtain ⟨u, -, rfl⟩ := List.mem_map.1 ho
    rfl

/-- The outcomes that all workers report. -/
def allReports (shares : List (List ExecutionGroup)) (shifts : List (Shift α)) :
    List (UnitOutcome α) :=
  (List.zipWith (fun share s => s.reports share) shares shifts).flatten

variable {R : List ExecutionGroup → Shift α → Prop} {shares : List (List ExecutionGroup)}
  {shifts : List (Shift α)}

theorem values_allReports (h : List.Forall₂ R shares shifts) :
    (allReports shares shifts).filterMap (fun o => o.result.toOption) = kept shifts := by
  induction h with
  | nil => rfl
  | @cons share s shares shifts _ _ ih =>
    have hcons : allReports (share :: shares) (s :: shifts) =
        s.reports share ++ allReports shares shifts := rfl
    rw [hcons, List.filterMap_append, ih, values_reports, kept, kept, List.filter_cons]
    split
    · rw [List.flatMap_cons]
    · rfl

/-- The unit at which a worker crashed is one of its units, so it is reported. -/
theorem crashed_mem_reports {share : List ExecutionGroup} {s : Shift α} {u : IndexedUnit}
    (hcovers : s.Covers ((Dispatcher.jobs share).map (·.1.toIndexedUnit)))
    (hcrashed : s.crashedAt = some u) : u.crashed ∈ s.reports share := by
  obtain ⟨rest, hunits, hhead⟩ := hcovers
  rw [hcrashed] at hhead
  have hu : u ∈ (Dispatcher.jobs share).map (·.1.toIndexedUnit) := by
    rw [hunits]
    exact List.mem_append_right _ (List.mem_of_mem_head? hhead)
  obtain ⟨job, hjob, rfl⟩ := List.mem_map.1 hu
  obtain ⟨g, hg, hjob⟩ := List.mem_flatMap.1 hjob
  obtain ⟨v, hv, rfl⟩ := List.mem_map.1 hjob
  have hresult : s.result = .error .crash := by
    rw [result, hcrashed]
  rw [reports, hresult]
  exact List.mem_map.2 ⟨v, List.mem_flatMap.2 ⟨g, hg, hv⟩, rfl⟩

/-- Where every unit reports a value, no worker crashed. -/
theorem none_crashed
    (h : List.Forall₂ (fun share s => s.Covers ((Dispatcher.jobs share).map (·.1.toIndexedUnit)))
      shares shifts)
    (hok : ∀ o ∈ allReports shares shifts, ∃ a, o.result = .ok a) :
    ∀ s ∈ shifts, s.crashedAt = none := by
  induction h with
  | nil => exact fun s hs => absurd hs List.not_mem_nil
  | @cons share s shares shifts hcovers _ ih =>
    have hcons : allReports (share :: shares) (s :: shifts) =
        s.reports share ++ allReports shares shifts := rfl
    rw [hcons, List.forall_mem_append] at hok
    refine List.forall_mem_cons.2 ⟨?_, ih hok.2⟩
    cases hcrashed : s.crashedAt with
    | none => rfl
    | some u =>
      obtain ⟨a, ha⟩ := hok.1 _ (crashed_mem_reports hcovers hcrashed)
      cases ha

end Shift

/-! ## Queries and executions -/

namespace StatementExecutor

/-- How a unit is run as a query. -/
def queryUnit (p : Provider W) : Dispatcher.UnitRun W Source := fun u mode => do
  settle p mode (← ofAct (p.query u.statement))

/-- How a unit is run, whatever its kind. -/
def executeUnit (p : Provider W) : Dispatcher.UnitRun W Outcome := fun u mode => do
  match ← ofAct (p.execute u.statement) with
  | .rows s => return .rows (← settle p mode s)
  | .update outcome => return .update outcome

variable {b : Books W} {d : Dispatcher W} {p : Provider W}

theorem owns_queryUnit (hquery : ∀ n, b.OpensOrStops (p.query n) Source.handles)
    (hclose : b.Closes p.closeCursor) (u : PreparedUnit) (mode : ConnectionMode) :
    (queryUnit p u mode).Owns b.Exactly (Leaves Source.handles) 0 := by
  refine (hquery u.statement).owns.bind_leaves fun s => ?_
  exact (owns_settle_of (fun _ _ _ hw => hw.closeSource hclose) mode s).leaves

theorem owns_executeUnit (hexecute : ∀ n, b.OpensOrStops (p.execute n) Outcome.handles)
    (hclose : b.Closes p.closeCursor) (u : PreparedUnit) (mode : ConnectionMode) :
    (executeUnit p u mode).Owns b.Exactly (Leaves Outcome.handles) 0 := by
  refine (hexecute u.statement).owns.bind_leaves fun outcome => ?_
  cases outcome with
  | update outcome => exact owns_pure rfl
  | rows s =>
    refine (owns_settle_of (fun _ _ _ hw => hw.closeSource hclose) mode s).leaves.bind_leaves ?_
    exact fun s => owns_pure rfl

/-- How a call on several workers ends.  Every worker has a shift.  When no worker crashes and no
unit fails, the values of all workers are returned, and their cursors are open.  Otherwise the
values of the workers that did not crash are discarded, and the cursors that stay open are those of
the values of the workers that crashed. -/
def EndsByShifts (b : Books W) (d : Dispatcher W) (run : Dispatcher.UnitRun W α)
    (discard : α → W → W) (held : α → Handles) (call : Act (StatementExecutor × W) (List α))
    (x : StatementExecutor) (w : W) : Prop :=
  ∃ (shifts : List (Shift α)) (kept : List α) (w₁ : W),
    interleave (d.turns w)
      ((d.shares x.groups).map fun share => d.shift run (Dispatcher.jobs share)) w =
        (shifts.map .ok, w₁) ∧
    List.Forall₂ (fun share s => s.Covers ((Dispatcher.jobs share).map (·.1.toIndexedUnit)))
      (d.shares x.groups) shifts ∧
    kept.Perm (Shift.kept shifts) ∧
    (call.run (x, w) = (.ok kept, (x, w₁)) ∧ (∀ s ∈ shifts, s.crashedAt = none) ∧
        b.cursors w₁ = (kept.map held).sum.2 + b.cursors w ∨
      ∃ e w₂, call.run (x, w) = (.error (.error e), (x, w₂)) ∧
        w₂ = kept.foldl (fun w a => discard a w) w₁ ∧
        b.cursors w₂ = ((Shift.lost shifts).map held).sum.2 + b.cursors w)

theorem run_runAll {run : Dispatcher.UnitRun W α} (discard : α → W → W) {x : StatementExecutor}
    {os : List (UnitOutcome α)} {w w' : W} (hgroups : ¬ x.groups.isEmpty = true)
    (h : (d.dispatch run x.groups).run w = (.ok os, w')) :
    (runAll d discard run).run (x, w) =
      (((collectOutcomes discard os).run w').1, (x, ((collectOutcomes discard os).run w').2)) := by
  show (if x.groups.isEmpty = true then _ else _ : Act (StatementExecutor × W) (List α)).run
    (x, w) = _
  rw [if_neg hgroups]
  show (((d.dispatch run x.groups >>= collectOutcomes discard).run w).1,
    (x, ((d.dispatch run x.groups >>= collectOutcomes discard).run w).2)) = _
  rw [Act.run_bind, h]

/-- Units that leave open what belongs to their values end by shifts. -/
theorem endsByShifts_runAll {run : Dispatcher.UnitRun W α} {discard : α → W → W}
    {held : α → Handles} (hrun : ∀ u mode, (run u mode).Owns b.Exactly (Leaves held) 0)
    (hdiscard : ∀ a w f, b.Exactly (held a + f) w → b.Exactly f (discard a w))
    {x : StatementExecutor} (hthreaded : d.runsInline x.groups = false) (w : W) :
    EndsByShifts b d run discard held (runAll d discard run) x w := by
  obtain ⟨shifts, w₁, hshifts, hcovers, hw₁⟩ :=
    Dispatcher.exists_shifts hrun (d.shares x.groups) (d.turns w) (b.exactly_self w)
  have hdispatch : (d.dispatch run x.groups).run w =
      (.ok (Shift.allReports (d.shares x.groups) shifts), w₁) :=
    d.run_dispatch_of_shifts run hthreaded hshifts
  have hgroups : ¬ x.groups.isEmpty = true := by
    intro hempty
    rw [List.isEmpty_iff.1 hempty] at hthreaded
    cases hthreaded
  generalize hos : Shift.allReports (d.shares x.groups) shifts = os at hdispatch
  have hkept : (UnitOutcome.values os).Perm (Shift.kept shifts) := by
    rw [← Shift.values_allReports hcovers, hos]
    exact (os.mergeSort_perm _).filterMap _
  -- what is open before anything is discarded
  have hopen : b.Exactly (((UnitOutcome.values os).map held).sum +
      (((Shift.lost shifts).map held).sum + (b.statements w, b.cursors w))) w₁ := by
    rwa [(hkept.map held).sum_eq, ← add_assoc, ← List.sum_append, ← List.map_append,
      ((Shift.perm_kept_lost shifts).map held).sum_eq]
  refine ⟨shifts, UnitOutcome.values os, w₁, hshifts, hcovers, hkept, ?_⟩
  rw [run_runAll discard hgroups hdispatch, collectOutcomes_eq]
  by_cases hempty : (UnitOutcome.failures os).isEmpty = true
  · rw [if_pos hempty]
    have hnone : ∀ s ∈ shifts, s.crashedAt = none := by
      refine Shift.none_crashed hcovers fun o ho => ?_
      exact UnitOutcome.isOk_of_failures_isEmpty hempty (hos ▸ ho)
    rw [Shift.lost_eq_nil hnone, List.map_nil, List.sum_nil, zero_add] at hopen
    exact .inl ⟨rfl, hnone, hopen.2⟩
  · rw [if_neg hempty]
    exact .inr ⟨_, _, rfl, rfl, (holds_discard hdiscard hopen).2⟩

/-- After a failed call on several workers, the cursors of the values that were lost with a worker
that crashed are open, and no other cursor that was opened during the call. -/
theorem cursors_after_crash (hquery : ∀ n, b.OpensOrStops (d.provider.query n) Source.handles)
    (hexecute : ∀ n, b.OpensOrStops (d.provider.execute n) Outcome.handles)
    (hclose : b.Closes d.provider.closeCursor) {x : StatementExecutor}
    (hthreaded : d.runsInline x.groups = false) (w : W) :
    EndsByShifts b d (queryUnit d.provider) (discardSource d.provider) Source.handles
        (query d) x w ∧
      EndsByShifts b d (executeUnit d.provider) (discardOutcome d.provider) Outcome.handles
        (execute d) x w := by
  constructor
  · exact endsByShifts_runAll (owns_queryUnit hquery hclose)
      (fun _ _ _ hw => hw.closeSource hclose) hthreaded w
  · refine endsByShifts_runAll (owns_executeUnit hexecute hclose) (fun outcome w f hw => ?_)
      hthreaded w
    cases outcome with
    | rows s => exact hw.closeSource hclose
    | update outcome => rwa [Outcome.handles, zero_add] at hw

end StatementExecutor

/-- Beside the memory are a cancel token and the faults of the shards. -/
abbrev Faulty :=
  Memory × Bool × Faults

/-- Two workers, on shards with faults. -/
def faultyWorkers : Dispatcher Faulty where
  provider := (Memory.beside (Bool × Faults)).withFaults (fun w => w.2.2)
    (fun faults w => (w.1, w.2.1, faults)) fun w => (w.1, true, w.2.2)
  token := CancelToken.beside ⟨Prod.fst, fun b e => (b, e.2), fun _ _ => rfl⟩
  workers := 2
  connections := 1
  turns _ := []

/-- A unit on one of three shards. -/
def shardUnit (index : Nat) : PreparedUnit where
  index := index
  unit := ⟨"ds_" ++ natText index, "SELECT id FROM t", []⟩
  statement := index

/-- Three units on connections of their own. -/
def threeUnits : StatementExecutor where
  groups := [0, 1, 2].map fun index => ⟨(shardUnit index).unit.shard, .streaming, [shardUnit index]⟩
  units := [0, 1, 2].map fun index => (shardUnit index).unit

/-- Three shards that answer with a row.  The statement on the second one crashes. -/
def crashingShard : Faulty where
  fst :=
    { shards := [0, 1, 2].map fun index =>
        { name := (shardUnit index).unit.shard
          scripts := [⟨"SELECT", .ok (.rows ["id"] [[.int64 7]])⟩] }
      statements := [0, 1, 2].map fun index =>
        { shard := (shardUnit index).unit.shard, sql := (shardUnit index).unit.sql } }
  snd := (false, { statements := [⟨1, "ds_1", [.crash]⟩] })

/-- The statement of the second unit crashes. -/
theorem cursors_after_crash_second :
    StatementExecutor.EndsByShifts (Memory.books _) faultyWorkers
        (StatementExecutor.queryUnit faultyWorkers.provider)
        (StatementExecutor.discardSource faultyWorkers.provider) Source.handles
        (StatementExecutor.query faultyWorkers) threeUnits crashingShard ∧
      StatementExecutor.EndsByShifts (Memory.books _) faultyWorkers
        (StatementExecutor.executeUnit faultyWorkers.provider)
        (StatementExecutor.discardOutcome faultyWorkers.provider) Outcome.handles
        (StatementExecutor.execute faultyWorkers) threeUnits crashingShard := by
  refine StatementExecutor.cursors_after_crash (fun n => ?_) (fun n => ?_) ?_ rfl crashingShard
  · exact Books.opensOrStops_query_withFaults (fun _ _ => ⟨rfl, rfl⟩) (fun _ => ⟨rfl, rfl⟩)
      (Memory.opens_query n).orStops
  · exact Books.opensOrStops_execute_withFaults (fun _ _ => ⟨rfl, rfl⟩) (fun _ => ⟨rfl, rfl⟩)
      (Memory.opens_execute n).orStops
  · exact Memory.closes_cursor.withFaults

/-- The first worker crashes at its second unit, and the cursor of its first unit stays open after
the query has failed. -/
theorem cursor_left_by_crash :
    ((StatementExecutor.query faultyWorkers).run (threeUnits, crashingShard)).1.isOk = false ∧
      crashingShard.1.openCursors = 0 ∧
      ((StatementExecutor.query faultyWorkers).run (threeUnits, crashingShard)).2.2.1.openCursors =
        1 := by
  have hshares : faultyWorkers.shares threeUnits.groups =
      [threeUnits.groups.take 2, threeUnits.groups.drop 2] := by
    show chunks 2 threeUnits.groups = _
    simp [threeUnits, chunks]
  have hrun : (StatementExecutor.query faultyWorkers).run (threeUnits, crashingShard) =
      (Act.outside (do
        collectOutcomes (StatementExecutor.discardSource faultyWorkers.provider)
          (← faultyWorkers.dispatch (StatementExecutor.queryUnit faultyWorkers.provider)
            threeUnits.groups))).run (threeUnits, crashingShard) := rfl
  have hsorted : ∀ outcomes : List (UnitOutcome Source),
      (outcomes.mergeSort fun a b => a.unit.index ≤ b.unit.index) =
        Sorting.insertion (fun a b => a.unit.index < b.unit.index) outcomes :=
    Sorting.mergeSort_eq_insertion fun o : UnitOutcome Source => o.unit.index
  rw [hrun, Dispatcher.dispatch, if_neg (by decide), hshares]
  simp only [collectOutcomes, hsorted]
  exact ⟨by decide +kernel, rfl, by decide +kernel⟩

end Sharding
