import Mathlib.Data.Multiset.Bind
import Sharding.Proofs.Execute.Queued
import Sharding.Proofs.Execute.Single
import Sharding.Proofs.Provider.MemoryJournal

/-!
# Batches in a journal

A batch that succeeds has executed what its calls contributed, each contribution once
(`replies_execute`).  Where executions report the same counts alone and in a batch, the counts of
the calls are the sums of what their units would report alone (`counts_as_single`).
-/

namespace Sharding

open Act Journal

variable {W : Type} {k : Journal W} {p : Provider W} {d : Dispatcher W} {w : W} {n : Nat}

/-- The executions that a batch unit stands for. -/
def BatchUnit.executions (b : BatchUnit) : List RouteUnit :=
  b.contributions.map (·.1)

namespace BatchExecutor

/-! ## One batch unit -/

theorem queueEntries_owns (hk : k.Kept p) (entries : List BatchEntry) (s : StatementState) :
    (queueEntries p n entries).Owns k.Holds (Answering fun reply m =>
      match reply with
      | .ok _ => ∃ params, m =
          ({(n, { s with params, queue := s.queue ++ entries.map (·.params) })}, 0)
      | .error _ => ¬ k.serves s.shard s.sql) ({(n, s)}, 0) := by
  induction entries generalizing s with
  | nil =>
    refine Program.owns_pure ⟨s.params, ?_⟩
    rw [List.map_nil, List.append_nil]
  | cons entry rest ih =>
    refine Answering.bind (hk.bind n entry.params).owns.ofAct ?_ fun e m he => he
    rintro _ _ ⟨_, rfl, rfl⟩
    refine Answering.bind (hk.addBatch n).owns.ofAct ?_ fun e m he => he
    rintro _ _ ⟨_, ⟨params, rfl⟩, rfl⟩
    have hrest := ih { s with params, queue := s.queue ++ [entry.params] }
    rw [List.append_assoc] at hrest
    exact hrest

theorem owns_batchKeys (hk : k.Kept p) (s : StatementState) (ran : Multiset RouteUnit) :
    (Act.ofStep fun w =>
      let (keys, w) := p.batchKeys n w
      (.ok keys, w)).Owns k.Holds ({(n, s)}, ran) fun reply m =>
        ∃ keys, reply = .ok keys ∧ m.2 = ran := by
  intro w f hw
  have hpart : (({(n, s)}, ran) + f : Part) = ({(n, s)}, 0) + ((0, ran) + f) := by
    rw [← add_assoc]
    refine congrArg (· + f) (Prod.ext (add_zero _).symm (zero_add ran).symm)
  rw [hpart] at hw
  have htouched := hw.touched (hk.batchKeys n w hw.sound)
  rw [← add_assoc] at htouched
  exact ⟨_, htouched, _, rfl, zero_add ran⟩

/-- The executions of the batch unit at the position of a unit. -/
def executionsAt (units : List BatchUnit) (u : IndexedUnit) : List RouteUnit :=
  (((units[u.index]?).map (·.entries)).getD []).map fun e => ⟨u.unit.shard, u.unit.sql, e.params⟩

/-- A batch unit executes its entries, and has a count for each. -/
theorem runs_runUnit (hk : k.Kept p) (units : List BatchUnit) :
    k.Runs (fun u _ => runUnit p units u) PreparedUnit.blank
      (fun u => ↑(executionsAt units u)) (fun u r => k.reports (executionsAt units u) r.1)
      fun u => ¬ k.serves u.shard u.sql := by
  intro u mode
  refine Answering.bind (queueEntries_owns hk _ _) ?_ fun e m he => he
  rintro _ _ ⟨params, rfl⟩
  have hqueued : StatementState.queued { u.blank with
      params, queue := u.blank.queue ++
        (((units[u.index]?).map (·.entries)).getD []).map (·.params) } =
      executionsAt units u.toIndexedUnit := by
    rw [StatementState.queued, executionsAt, PreparedUnit.blank, List.nil_append, List.map_map]
    rfl
  refine Answering.bind (hk.executeBatch u.statement).owns.ofAct ?_ fun e m he => he
  rintro counts _ ⟨s', ⟨hreports, hopen⟩, rfl⟩
  rw [hqueued] at hreports ⊢
  obtain ⟨s', rfl⟩ := Option.ne_none_iff_exists'.1 hopen
  refine Answering.bind (owns_batchKeys hk s' _).ofAct ?_ ?_
  · rintro keys m ⟨_, ⟨⟩, hran⟩
    exact Program.owns_pure ⟨hreports, hran⟩
  · rintro e m ⟨_, ⟨⟩, _⟩

/-! ## All batch units -/

theorem map_executionsAt (units : List BatchUnit) :
    (indexUnits (units.map (·.routeUnit))).map (executionsAt units) =
      units.map BatchUnit.executions := by
  refine List.ext_getElem? fun i => ?_
  simp only [indexUnits, List.getElem?_map, List.getElem?_zipIdx]
  cases hb : units[i]? with
  | none => rfl
  | some b =>
    refine congrArg some ?_
    simp [executionsAt, hb, BatchUnit.executions, BatchUnit.contributions, BatchUnit.routeUnit]

/-- The executions of all batch units. -/
def executions (x : BatchExecutor) : List RouteUnit :=
  x.units.flatMap BatchUnit.executions

theorem sum_executionsAt (x : BatchExecutor) :
    ((indexUnits (x.units.map (·.routeUnit))).map fun u =>
      (↑(executionsAt x.units u) : Multiset RouteUnit)).sum = ↑x.executions := by
  rw [executions, List.flatMap_def, ← map_executionsAt, ← Multiset.coe_join, List.map_map]
  exact (Multiset.sum_coe _).symm

/-- Queued calls are executed unit by unit. -/
theorem coe_executions {x : BatchExecutor} {calls : List QueuedCall}
    (hx : x.units = collapse (contributionsFrom 0 calls)) :
    (↑x.executions : Multiset RouteUnit) = ↑(calls.flatMap (·.1)) := by
  rw [executions, hx, ← map_fst_contributionsFrom 0, Multiset.coe_eq_coe]
  have hmap : (collapse (contributionsFrom 0 calls)).flatMap BatchUnit.executions =
      ((collapse (contributionsFrom 0 calls)).flatMap BatchUnit.contributions).map (·.1) :=
    (List.map_flatMap ..).symm
  rw [hmap]
  exact (perm_contributions_collapse _).map _

/-- What is known of a batch that has been executed: its calls are still queued, and what they
contributed has been executed. -/
structure Executed (k : Journal W) (x : BatchExecutor) (executed : Multiset RouteUnit)
    (p : BatchExecutor × W) : Prop where
  units : p.1.units = x.units
  keyInfos : p.1.keyInfos = x.keyInfos
  holds : k.Holds (0, x.executions + executed) p.2

/-- Queued calls are executed, each contribution once, and each batch unit has a count for each of
its entries; or some unit is not served. -/
theorem replies_execute (hk : k.Kept d.provider) {x : BatchExecutor} (hcalls : x.calls ≠ 0)
    (accumulate : Bool) (hw : k.sound w) :
    (execute d accumulate).Replies (x, w) fun reply p =>
      (∃ e, reply = .error e) ∧ k.Excused d (x.units.map (·.routeUnit)) ∨
        Executed k x (k.executed w) p ∧
          ∃ results, List.Forall₂ (fun b r => k.reports b.executions r.1) x.units results ∧
            reply = (credit accumulate (List.replicate x.calls 0) (x.units.zip results)).1.mapError
              .merge := by
  have hclosed := (holds_start hw).closeGroups hk x.groups
  have hgroups := replies_prepareGroups hk d.connections (x.units.map (·.routeUnit)) hclosed
  refine replies_state_bind.2 ?_
  rw [if_neg hcalls]
  refine replies_effect_bind.2 (replies_update_bind.2 (hgroups.outside_bind ?_ ?_))
  · intro groups w' hprepared
    obtain ⟨hholds, hunits⟩ := hprepared
    refine replies_update_bind.2 ?_
    refine ((runs_runUnit hk x.units).replies hunits hholds).outside_bind ?_ ?_
    · intro results w'' hresults
      obtain ⟨hreports, hholds'⟩ := hresults
      rw [sum_executionsAt] at hholds'
      generalize hcredit : credit accumulate (List.replicate x.calls 0) (x.units.zip results) =
        credited
      refine replies_update_bind.2 (replies_ofExcept.2 (.inr ?_))
      refine ⟨⟨rfl, rfl, hholds'⟩, results, ?_, ?_⟩
      · have hall : List.Forall₂ (fun es r => k.reports es r.1)
            ((indexUnits (x.units.map (·.routeUnit))).map (executionsAt x.units)) results :=
          List.forall₂_map_left_iff.2 hreports
        rw [map_executionsAt] at hall
        exact List.forall₂_map_left_iff.1 hall
      · rw [hcredit]
    · intro e w'' hexcused
      exact .inl ⟨⟨e, rfl⟩, hexcused⟩
  · intro e w' hunserved
    exact .inl ⟨⟨e, rfl⟩, .inr hunserved⟩

/-! ## Counts -/

variable {affected : RouteUnit → UInt64}

/-- A batch unit is served when what was contributed to it is. -/
theorem Unserved.of_collapse {cs : List (RouteUnit × Nat)}
    (h : k.Unserved ((collapse cs).map (·.routeUnit))) : k.Unserved (cs.map (·.1)) := by
  obtain ⟨_, hmem, hserves⟩ := h
  obtain ⟨b, hb, rfl⟩ := List.mem_map.1 hmem
  obtain ⟨c, hc, hkind⟩ := exists_of_mem_collapse hb
  obtain ⟨hshard, hsql⟩ := Prod.mk.inj hkind
  refine ⟨c.1, List.mem_map_of_mem hc, ?_⟩
  rw [hshard, hsql]
  exact hserves

/-- Queued calls are answered with the sums of the counts of their units. -/
theorem replies_counts (hk : k.Kept d.provider)
    (hreports : ∀ us counts, k.reports us counts → counts = us.map affected)
    {x : BatchExecutor} {calls : List QueuedCall}
    (hx : x.units = collapse (contributionsFrom 0 calls)) (hcalls : x.calls = calls.length)
    (hw : k.sound w) :
    (execute d true).Replies (x, w) fun reply _ =>
      match reply with
      | .ok counts => counts = calls.map fun call => (call.1.map affected).sum
      | .error _ => k.Excused d (calls.flatMap (·.1)) := by
  by_cases hnone : x.calls = 0
  · have hcalls' : calls = [] := List.eq_nil_of_length_eq_zero (hcalls.symm.trans hnone)
    refine replies_state_bind.2 ?_
    rw [if_pos hnone, hcalls']
    exact replies_pure.2 rfl
  · refine (replies_execute hk hnone true hw).mono fun reply p hreply => ?_
    cases hreply with
    | inl hexcused =>
      obtain ⟨⟨e, rfl⟩, hexcused⟩ := hexcused
      refine hexcused.imp_right fun hunserved => ?_
      rw [hx] at hunserved
      rw [← map_fst_contributionsFrom 0]
      exact Unserved.of_collapse hunserved
    | inr hexecuted =>
      obtain ⟨-, results, hresults, rfl⟩ := hexecuted
      have hcounts : List.Forall₂ (fun (b : BatchUnit) (r : List UInt64 × List Datum) =>
          r.1 = b.contributions.map fun c => affected c.1) x.units results :=
        hresults.imp fun b r h => by
          rw [hreports _ _ h, BatchUnit.executions, List.map_map]
          rfl
      rw [credit_eq _ hcounts, hcalls, hx, foldl_bump_calls (perm_contributions_collapse _)]
      rfl

theorem map_affected (hreports : ∀ us counts, k.reports us counts → counts = us.map affected)
    {units : List RouteUnit} {outcomes : List UpdateOutcome}
    (h : List.Forall₂ (fun u outcome => k.reports [u] [outcome.affected]) units outcomes) :
    outcomes.map (·.affected) = units.map affected := by
  induction h with
  | nil => rfl
  | @cons u outcome units outcomes hu _ ih =>
    have hcount := hreports [u] [outcome.affected] hu
    rw [List.map_cons, List.map_cons, ih, (List.cons.inj hcount).1]

/-- Batched execution equals one-by-one execution.  The batch units hold each contribution of each
call exactly once, no two of them share shard and SQL text, and in each of them the contributions
stand in the order of the calls.  Where executions report the same counts alone and in a batch, a
batch answers with a count for each call, which is the sum of the counts that the units of the call
report when they are executed alone. -/
theorem counts_as_single (hk : k.Kept d.provider)
    (hreports : ∀ us counts, k.reports us counts → counts = us.map affected)
    {x : BatchExecutor} (hunits : x.units = []) (hcalls : x.calls = 0)
    (calls : List QueuedCall) :
    ((x.addAll calls).units.flatMap BatchUnit.contributions).Perm (contributionsFrom 0 calls) ∧
      ((x.addAll calls).units.map BatchUnit.kind).Nodup ∧
      (∀ b ∈ (x.addAll calls).units,
        b.contributions = (contributionsFrom 0 calls).filter (b.accepts ·.1)) ∧
      (∀ w, k.sound w → (execute d true).Replies (x.addAll calls, w) fun reply _ =>
        match reply with
        | .ok counts => counts = calls.map fun call => (call.1.map affected).sum
        | .error _ => k.Excused d (calls.flatMap (·.1))) ∧
      ∀ units, units ≠ [] → ∀ s w, k.sound w →
        (do let _ ← StatementExecutor.prepare d units
            StatementExecutor.update d : Act (StatementExecutor × W) _).Replies (s, w)
          fun reply _ =>
            match reply with
            | .ok outcomes => outcomes.map (·.affected) = units.map affected
            | .error _ => k.Excused d units := by
  have hadded := addAll_eq (show x.units = collapse [] from hunits) calls
  rw [hcalls, List.nil_append, Nat.zero_add] at hadded
  have hx : (x.addAll calls).units = collapse (contributionsFrom 0 calls) := by rw [hadded]
  have hlength : (x.addAll calls).calls = calls.length := by rw [hadded]
  refine ⟨?_, ?_, ?_, fun w hw => ?_, fun units hne s w hw => ?_⟩
  · rw [hx]
    exact perm_contributions_collapse _
  · rw [hx, map_kind_collapse]
    exact nodup_distinct _
  · rw [hx]
    exact fun b hb => contributions_of_mem_collapse hb
  · exact replies_counts hk hreports hx hlength hw
  · refine (StatementExecutor.replies_prepare hk units s hw).bind ?_ ?_
    · intro _ p hp
      refine (StatementExecutor.replies_update hk hp hne).mono fun reply q hreply => ?_
      cases reply with
      | error e => exact hreply
      | ok outcomes => exact map_affected hreports hreply.1
    · intro e p hunserved
      exact .inr hunserved

/-- Two shards that report 3 and 4 for every execution. -/
def countedShards : Memory :=
  ((Memory.ofShards ["ds_0", "ds_1"]).script "ds_0" "UPDATE" (.ok (.update 3 false))).script "ds_1"
    "UPDATE" (.ok (.update 4 true))

/-- Two workers on these shards, whose calls alternate. -/
def twoWorkers : Dispatcher (Memory × Bool) where
  provider := Memory.beside Bool
  token := CancelToken.beside ⟨id, fun b _ => b, fun _ _ => rfl⟩
  workers := 2
  connections := 1
  turns := fun _ => [1, 0, 1, 0]

/-- Three calls, the second of which runs on both shards. -/
def overlappingCalls : List QueuedCall :=
  [([⟨"ds_0", "UPDATE t SET a = ?", [.int64 1]⟩], none),
    ([⟨"ds_1", "UPDATE t SET a = ?", [.int64 2]⟩,
      ⟨"ds_0", "UPDATE t SET a = ?", [.int64 2]⟩], none),
    ([⟨"ds_0", "UPDATE t SET a = ?", [.int64 1]⟩], none)]

theorem counts_as_single_overlapping :
    (Memory.journal countedShards (· = false)).Kept twoWorkers.provider ∧
      (∀ us counts, (Memory.journal countedShards (· = false)).reports us counts →
        counts = us.map countedShards.affected) ∧
      ({} : BatchExecutor).units = [] ∧ ({} : BatchExecutor).calls = 0 ∧
      (execute twoWorkers true).Replies (addAll {} overlappingCalls, countedShards, false)
        fun reply _ => reply = .ok [3, 7, 3] := by
  have hkept := Memory.kept_journal countedShards (· = false)
  have hreports : ∀ us counts, (Memory.journal countedShards (· = false)).reports us counts →
      counts = us.map countedShards.affected := fun _ _ h => h
  refine ⟨hkept, hreports, rfl, rfl, ?_⟩
  have hserved : ∀ u ∈ overlappingCalls.flatMap (·.1),
      (Memory.journal countedShards (· = false)).serves u.shard u.sql := by
    have hunits : ∀ u ∈ overlappingCalls.flatMap (·.1),
        (u.shard = "ds_0" ∨ u.shard = "ds_1") ∧ u.sql = "UPDATE t SET a = ?" := by decide
    intro u hu
    obtain ⟨hshard, hsql⟩ := hunits u hu
    rw [hsql]
    cases hshard with
    | inl h => rw [h]; exact ⟨by cbv, 3, false, by cbv⟩
    | inr h => rw [h]; exact ⟨by cbv, 4, true, by cbv⟩
  obtain ⟨-, -, -, hcounts, -⟩ := counts_as_single (d := twoWorkers) hkept hreports
    (x := {}) rfl rfl overlappingCalls
  refine (hcounts (countedShards, false) ⟨rfl, rfl, rfl⟩).mono fun reply p hreply => ?_
  cases reply with
  | ok counts =>
    rw [hreply]
    cbv
  | error e =>
    cases hreply with
    | inl hcancelled =>
      obtain ⟨v, hsound, hset⟩ := hcancelled
      cases hset.symm.trans hsound.2.2
    | inr hunserved =>
      obtain ⟨u, hu, hserves⟩ := hunserved
      exact absurd (hserved u hu) hserves

end BatchExecutor

end Sharding
