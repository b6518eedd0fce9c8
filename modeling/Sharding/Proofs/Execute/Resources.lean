import Mathlib.Algebra.BigOperators.Group.Multiset.Basic
import Sharding.Proofs.Execute.Dispatch
import Sharding.Proofs.Execute.Preparing
import Sharding.Proofs.Provider.Memory

/-!
# Executions that differ in their resources

Two dispatchers on the provider in memory may differ in the number of their workers, in the number
of connections and in the turns of the workers.  Their units are grouped and run differently then,
and yet each unit has the same reply, so the calls agree.

* `run_dispatch` says what the outcomes of a dispatched call are, in the order of its units and up
  to what depends on the order of the calls, such as the numbers of cursors.
* `agrees_collectOutcomes` says that nothing else counts for the answer of a call.
* `StatementExecutor.agrees_prepare`, `StatementExecutor.agrees_runAll` and
  `agrees_executeBatch` put this together for the calls of an executor.
-/

namespace Sharding

open Act

variable {W E α β : Type}

/-! ## Collecting outcomes -/

/-- What is sorted by a number stands in the order of the numbers. -/
theorem pairwise_mergeSort_key (key : α → Nat) (xs : List α) :
    (xs.mergeSort fun a b => key a ≤ key b).Pairwise (key · ≤ key ·) := by
  refine (List.pairwise_mergeSort ?_ ?_ xs).imp of_decide_eq_true
  · intro a b c hab hbc
    exact decide_eq_true ((of_decide_eq_true hab).trans (of_decide_eq_true hbc))
  · intro a b
    simpa using Nat.le_total (key a) (key b)

namespace UnitOutcome

/-- An outcome whose value is seen through `view`. -/
def map (view : α → β) (o : UnitOutcome α) : UnitOutcome β :=
  ⟨o.unit, o.result.map view⟩

/-- The failure of a unit that failed. -/
def failure? (o : UnitOutcome α) : Option (UnitFailure Error) :=
  match o.result with
  | .ok _ => none
  | .error e => some (o.unit.failure e)

/-- Outcomes in the order of their units. -/
def inOrder (os : List (UnitOutcome α)) : List (UnitOutcome α) :=
  os.mergeSort fun a b => a.unit.index ≤ b.unit.index

/-- The values in the order of their units. -/
def values (os : List (UnitOutcome α)) : List α :=
  (inOrder os).filterMap fun o => o.result.toOption

/-- The failures in the order of their units. -/
def failures (os : List (UnitOutcome α)) : List (UnitFailure Error) :=
  (inOrder os).filterMap failure?

variable (view : α → β) (os : List (UnitOutcome α))

theorem map_inOrder : (inOrder os).map (map view) = inOrder (os.map (map view)) :=
  List.map_mergeSort fun _ _ _ _ => rfl

theorem values_map : values (os.map (map view)) = (values os).map view := by
  have hview : ∀ o : UnitOutcome α, (o.map view).result.toOption = o.result.toOption.map view := by
    rintro ⟨unit, _ | _⟩ <;> rfl
  rw [values, values, ← map_inOrder, List.filterMap_map, List.map_filterMap]
  exact congrArg (List.filterMap · _) (funext hview)

theorem failures_map : failures (os.map (map view)) = failures os := by
  have hview : ∀ o : UnitOutcome α, (o.map view).failure? = o.failure? := by
    rintro ⟨unit, _ | _⟩ <;> rfl
  rw [failures, failures, ← map_inOrder, List.filterMap_map]
  exact congrArg (List.filterMap · _) (funext hview)

end UnitOutcome

theorem collectOutcomes_eq (discard : α → W → W) (os : List (UnitOutcome α)) :
    collectOutcomes discard os =
      if (UnitOutcome.failures os).isEmpty then pure (UnitOutcome.values os)
      else (do
        Act.effect fun w => (UnitOutcome.values os).foldl (fun w a => discard a w) w
        Act.fail (Error.ofFailures (UnitOutcome.failures os) os.length)) :=
  rfl

/-- Outcomes that look alike are collected alike. -/
theorem agrees_collectOutcomes {view : α → β} {discard discard' : α → W → W}
    {os os' : List (UnitOutcome α)} (h : os.map (·.map view) = os'.map (·.map view)) (w w' : W) :
    (collectOutcomes discard os).Agrees w (collectOutcomes discard' os') w'
      fun values _ values' _ => values.map view = values'.map view := by
  have hfailures : UnitOutcome.failures os = UnitOutcome.failures os' := by
    rw [← UnitOutcome.failures_map view, h, UnitOutcome.failures_map]
  have hvalues : (UnitOutcome.values os).map view = (UnitOutcome.values os').map view := by
    rw [← UnitOutcome.values_map, h, UnitOutcome.values_map]
  have hlength : os.length = os'.length := by simpa using congrArg List.length h
  rw [collectOutcomes_eq, collectOutcomes_eq, hfailures, hlength]
  split
  · exact agrees_pure hvalues
  · exact agrees_effect_bind (agrees_fail _)

/-! ## Running units -/

/-- A dispatcher on the provider in memory, whose token is beside the memory. -/
structure Dispatcher.InMemory (t : CancelToken E) (d : Dispatcher (Memory × E)) : Prop where
  provider : d.provider = Memory.beside E
  token : d.token = t.beside

namespace Memory

variable {t : CancelToken E} {d d' : Dispatcher (Memory × E)} {w : Memory × E}

/-- The statements of some units are open and different from each other. -/
def Ready (units : List PreparedUnit) (w : Memory × E) : Prop :=
  Holds w.1.answer w.2 (units.map (·.opened)) w

/-- What a unit replies: nothing but its cancellation, once the token is set. -/
def unlessCancelled (t : CancelToken E) (e : E) (reply : Except Error β) : Except Error β :=
  if t.isSet e then .error .cancelled else reply

/-- What a unit replies when it is run in memory, as far as `view` shows it. -/
def Scripted (run : Dispatcher.UnitRun (Memory × E) α) (view : α → β)
    (expected : (String → String → Except Error Response) → PreparedUnit → Except Error β) : Prop :=
  ∀ answers (e : E) u mode, (run u mode).Owns (Holds answers e)
    (Replies view (expected answers u) u.opened) {u.opened}

variable {run : Dispatcher.UnitRun (Memory × E) α} {view : α → β}
  {expected : (String → String → Except Error Response) → PreparedUnit → Except Error β}

theorem map_fst_jobs (groups : List ExecutionGroup) :
    (Dispatcher.jobs groups).map Prod.fst = groups.flatMap (·.units) := by
  have hgroup : ∀ g, (Dispatcher.groupJobs g).map Prod.fst = g.units := fun g => by
    rw [Dispatcher.groupJobs, List.map_map]
    exact List.map_id _
  rw [Dispatcher.jobs, List.map_flatMap]
  exact congrArg (List.flatMap · groups) (funext hgroup)

theorem sum_opened (groups : List ExecutionGroup) :
    ((Dispatcher.jobs groups).map fun job => ({job.1.opened} : Multiset OpenStatement)).sum =
      ↑((groups.flatMap (·.units)).map (·.opened)) := by
  rw [← map_fst_jobs, List.map_map]
  induction Dispatcher.jobs groups with
  | nil => rfl
  | cons job jobs ih =>
    rw [List.map_cons, List.sum_cons, ih, List.map_cons, ← Multiset.cons_coe,
      ← Multiset.singleton_add]
    rfl

theorem runsAlone (hd : d.InMemory t) (hrun : Scripted run view expected)
    (answers : String → String → Except Error Response) (e : E) (job : Dispatcher.Job) :
    Dispatcher.RunsAlone (Holds answers e) d run (fun job => {job.1.opened})
      (fun _ job result => result.map view = unlessCancelled t e (expected answers job.1)) job := by
  have hset : ∀ w, d.token.isSet w = t.isSet w.2 := fun w => by
    rw [hd.token]
    rfl
  refine Dispatcher.runsAlone_of (fun w f hw hcancel => ?_) fun w f hw hgo => ?_
  · rw [hset, hw.beside] at hcancel
    rw [unlessCancelled, if_pos hcancel]
    rfl
  · rw [hset, hw.beside] at hgo
    rw [unlessCancelled, if_neg (ne_true_of_eq_false hgo)]
    refine (hrun answers e job.1 job.2).mono ?_
    rintro result m ⟨hreply, -⟩
    generalize expected answers job.1 = reply at hreply ⊢
    rcases result with ⟨cause | _⟩ | a <;> cases reply <;> cases hreply
    · rfl
    · rfl

/-- Each unit has the reply that it would have alone, and the outcomes stand in the order of the
groups. -/
theorem run_dispatch (hd : d.InMemory t) (hrun : Scripted run view expected)
    {groups : List ExecutionGroup} (h : Ready (groups.flatMap (·.units)) w) :
    ∃ os w', (d.dispatch run groups).run w = (.ok os, w') ∧
      os.map (·.map view) = (groups.flatMap (·.units)).map fun u =>
        ⟨u.toIndexedUnit, unlessCancelled t w.2 (expected w.1.answer u)⟩ := by
  have hw : Holds w.1.answer w.2 (((Dispatcher.jobs groups).map fun job =>
      ({job.1.opened} : Multiset OpenStatement)).sum + 0) w := by
    rwa [add_zero, sum_opened]
  obtain ⟨os, w', m, hdispatch, hos, -⟩ :=
    Dispatcher.dispatch_owns (fun job _ => runsAlone hd hrun w.1.answer w.2 job) hw
  refine ⟨os, w', hdispatch, ?_⟩
  rw [← map_fst_jobs, List.map_map]
  clear hdispatch hw h
  generalize Dispatcher.jobs groups = jobs at hos ⊢
  induction hos with
  | nil => rfl
  | cons hjob _ ih =>
    obtain ⟨hunit, hreply⟩ := hjob
    rw [List.map_cons, List.map_cons, ih, UnitOutcome.map, hunit, hreply]
    rfl

/-! ## Preparing units -/

theorem run_connect (shard : String) (w : Memory × E) :
    ∃ reply : Except Error Connection,
      (∀ v : Memory × E, v.1.shards = w.1.shards →
        ((Memory.beside E).connect shard).run v = (reply.mapError .error, v)) ∧
      ∀ c, reply = .ok c → c.shard = shard := by
  have hfind : ∀ v : Memory × E, v.1.shards = w.1.shards →
      v.1.shard? shard = w.1.shard? shard := fun v hv => shard?_of_shards hv shard
  cases hfound : w.1.shard? shard with
  | none =>
    refine ⟨.error (.connection shard "unknown shard"), fun v hv => ?_, by rintro _ ⟨⟩⟩
    show (((Memory.connect shard).run v.1).1, ((Memory.connect shard).run v.1).2, v.2) = _
    simp only [Memory.connect, Act.ofStep, Act.run_ofRun, hfind v hv, hfound]
  | some s =>
    by_cases hdown : s.unavailable = true
    · refine ⟨.error (.connection shard "shard unavailable"), fun v hv => ?_, by rintro _ ⟨⟩⟩
      show (((Memory.connect shard).run v.1).1, ((Memory.connect shard).run v.1).2, v.2) = _
      simp only [Memory.connect, Act.ofStep, Act.run_ofRun, hfind v hv, hfound, if_pos hdown]
    · refine ⟨.ok ⟨shard, w.1.shards.findIdx (·.name == shard)⟩, fun v hv => ?_,
        by rintro _ ⟨⟩; rfl⟩
      show (((Memory.connect shard).run v.1).1, ((Memory.connect shard).run v.1).2, v.2) = _
      simp only [Memory.connect, Act.ofStep, Act.run_ofRun, hfind v hv, hfound, if_neg hdown, hv]

theorem beside_steady : (Memory.beside E).Steady where
  connect shard w := by
    obtain ⟨reply, hrun, -⟩ := run_connect shard w
    rw [hrun w rfl]
  prepare c sql shard w := by
    obtain ⟨reply, hrun, -⟩ := run_connect shard w
    rw [hrun w rfl, hrun _ (shards_prepare w.1 c sql)]

theorem yields_prepare {answers : String → String → Except Error Response} {e : E}
    (shard sql : String) :
    Yields (Holds answers e) 0 (do
      (Memory.beside E).prepare (← (Memory.beside E).connect shard) sql) fun n =>
        {{ number := n, shard, sql }} := by
  intro w f hw
  rw [zero_add] at hw
  obtain ⟨reply, hrun, hshard⟩ := run_connect shard w
  refine ends_bind.2 ?_
  unfold Ends
  rw [hrun w rfl]
  cases reply with
  | error cause => exact hw
  | ok c =>
    show Ends ((Memory.prepare c sql).zoom Prod.fst fun m (w : Memory × E) => (m, w.2)) w _
    unfold Ends Memory.prepare
    simp only [Act.ofStep, Act.zoom, Act.run_ofRun]
    by_cases hfails : (w.1.shard? c.shard).any (·.failsPrepare) = true
    · rw [if_pos hfails]
      exact hw
    · rw [if_neg hfails, hshard c rfl]
      exact hw.append rfl rfl

theorem succeeds_prepareEach {answers : String → String → Except Error Response} {e : E}
    (units : List IndexedUnit) :
    Succeeds (Holds answers e) 0 (prepareEach (Memory.beside E) units) fun r =>
      ↑(r.1.map (·.opened)) := by
  induction units with
  | nil => exact succeeds_pure rfl
  | cons u rest ih =>
    refine (yields_prepare u.unit.shard u.unit.sql).attempt.bind fun reply => ?_
    cases reply with
    | error cause => exact succeeds_pure rfl
    | ok n =>
      have hrest := ih.frame {{ number := n, shard := u.unit.shard, sql := u.unit.sql }}
      rw [zero_add] at hrest
      refine hrest.bind fun r => succeeds_pure ?_
      rw [List.map_cons, ← Multiset.cons_coe, ← Multiset.singleton_add, add_comm]
      rfl

theorem Holds.ready {answers : String → String → Except Error Response} {e : E}
    {units : List PreparedUnit} (h : Holds answers e (units.map (·.opened)) w) : Ready units w := by
  obtain rfl := h.answers
  obtain rfl := h.beside
  exact h

/-- With any number of connections the same statements are prepared, and then they are open. -/
theorem agrees_prepareGroups (hd : d.InMemory t) (hd' : d'.InMemory t) (units : List RouteUnit)
    (w : Memory × E) :
    (prepareGroups d.provider d.connections units).Agrees w
      (prepareGroups d'.provider d'.connections units) w fun groups v groups' v' =>
        v' = v ∧ groups'.flatMap (·.units) = groups.flatMap (·.units) ∧
          groups'.isEmpty = groups.isEmpty ∧ Ready (groups.flatMap (·.units)) v := by
  rw [hd.provider, hd'.provider]
  refine Sharding.agrees_prepareGroups beside_steady d.connections d'.connections units ?_
  have hnothing : Holds w.1.answer w.2 (0 + 0) w :=
    ⟨Multiset.nodup_zero, fun o ho => absurd ho (Multiset.notMem_zero o), rfl, rfl⟩
  refine (succeeds_prepareEach (unitsByShard units) w 0 hnothing).mono ?_
  rintro _ v ⟨r, rfl, hr⟩ prepared failure ⟨⟩
  rw [add_zero] at hr
  exact hr.ready

/-- Units that are run by two dispatchers have matching values. -/
theorem agrees_runUnits (hd : d.InMemory t) (hd' : d'.InMemory t)
    (hrun : Scripted run view expected) {groups groups' : List ExecutionGroup}
    (hunits : groups'.flatMap (·.units) = groups.flatMap (·.units))
    (h : Ready (groups.flatMap (·.units)) w) (discard discard' : α → Memory × E → Memory × E) :
    (do collectOutcomes discard (← d.dispatch run groups) : Act (Memory × E) (List α)).Agrees w
      (do collectOutcomes discard' (← d'.dispatch run groups')) w fun values _ values' _ =>
        values.map view = values'.map view := by
  obtain ⟨os, v, hos, hview⟩ := run_dispatch hd hrun h
  obtain ⟨os', v', hos', hview'⟩ := run_dispatch hd' hrun (hunits ▸ h)
  have hdispatch : (d.dispatch run groups).Agrees w (d'.dispatch run groups') w
      fun os _ os' _ => os.map (·.map view) = os'.map (·.map view) := by
    unfold Agrees
    rw [hos, hos']
    exact .ok (by rw [hview, hview', hunits])
  exact hdispatch.bind fun _ _ _ _ h => agrees_collectOutcomes h _ _

/-! ## Single executions -/

/-- Two executors hold the same statements, in groups of one kind or another, and these are open. -/
structure Matching (p q : StatementExecutor × (Memory × E)) : Prop where
  world : q.2 = p.2
  prepared : q.1.prepared = p.1.prepared
  units : q.1.units = p.1.units
  isEmpty : q.1.groups.isEmpty = p.1.groups.isEmpty
  ready : Ready p.1.prepared p.2

theorem run_bind_of_ready {units : List PreparedUnit} (h : Ready units w) {u : PreparedUnit}
    (hu : u ∈ units) (params : List Datum) :
    ∃ w', ((Memory.beside E).bind u.statement params).run w = (.ok (), w') ∧ Ready units w' := by
  obtain ⟨rest, hrest⟩ := Multiset.exists_cons_of_mem
    (Multiset.mem_coe.2 (List.mem_map_of_mem (f := PreparedUnit.opened) hu))
  have hw : Holds w.1.answer w.2 ({u.opened} + rest) w := by
    rw [Multiset.singleton_add, ← hrest]
    exact h
  obtain ⟨m, hm, hreply, rfl⟩ := (owns_bind u.opened params).run hw
  rw [Multiset.singleton_add, ← hrest] at hm
  refine ⟨_, Prod.ext ?_ rfl, hm.ready⟩
  rw [Except.map_id] at hreply
  exact hreply

variable {p q : StatementExecutor × (Memory × E)}

theorem agrees_bind (hd : d.InMemory t) (hd' : d'.InMemory t) (h : Matching p q) (index : Nat)
    (params : List Datum) :
    (StatementExecutor.bind d index params).Agrees p (StatementExecutor.bind d' index params) q
      fun _ p' _ q' => Matching p' q' := by
  refine agrees_state ?_
  rw [h.prepared, h.units]
  split
  · exact agrees_fail _
  · rename_i u hu
    obtain ⟨w', hrun, hready⟩ := run_bind_of_ready h.ready (List.mem_of_find?_eq_some hu) params
    have hbind : (d.provider.bind u.statement params).Agrees p.2
        (d'.provider.bind u.statement params) q.2 fun _ v _ v' => v = w' ∧ v' = w' := by
      rw [hd.provider, hd'.provider, h.world]
      unfold Agrees
      rw [hrun]
      exact .ok ⟨rfl, rfl⟩
    refine hbind.outside.bind_attempt ?_ fun e _ _ => agrees_fail _
    rintro _ ⟨x, _⟩ _ ⟨y, _⟩ ⟨rfl, rfl, rfl, rfl⟩
    exact agrees_pure ⟨rfl, h.prepared, h.units, h.isEmpty, hready⟩

theorem agrees_bindAll (hd : d.InMemory t) (hd' : d'.InMemory t) (h : Matching p q)
    (units : List IndexedUnit) :
    (StatementExecutor.bindAll d units).Agrees p (StatementExecutor.bindAll d' units) q
      fun _ p' _ q' => Matching p' q' := by
  induction units generalizing p q with
  | nil => exact agrees_pure h
  | cons u rest ih => exact (agrees_bind hd hd' h _ _).bind fun _ _ _ _ h' => ih h'

/-- The same statements are prepared and bound, or the same unit fails. -/
theorem agrees_prepare (hd : d.InMemory t) (hd' : d'.InMemory t) (units : List RouteUnit)
    (p : StatementExecutor × (Memory × E)) :
    (StatementExecutor.prepare d units).Agrees p (StatementExecutor.prepare d' units) p
      fun _ p' _ q' => Matching p' q' := by
  have hclear : StatementExecutor.clear d = StatementExecutor.clear d' := by
    rw [StatementExecutor.clear, StatementExecutor.clear, hd.provider, hd'.provider]
  rw [StatementExecutor.prepare, StatementExecutor.prepare, hclear]
  refine agrees_bind_same _ fun _ p => ?_
  refine (agrees_prepareGroups hd hd' units p.2).outside.bind ?_
  rintro groups ⟨x, _⟩ groups' ⟨y, v⟩ ⟨-, -, rfl, hprepared, hempty, hready⟩
  refine agrees_update_bind ?_
  have hmatching : Matching (⟨groups, units⟩, v) (⟨groups', units⟩, v) :=
    ⟨rfl, hprepared, rfl, hempty, hready⟩
  refine (agrees_bindAll hd hd' hmatching (indexUnits units)).bind_attempt ?_ fun e _ _ => ?_
  · exact fun _ _ _ _ h => agrees_pure h
  · exact agrees_effect_bind (agrees_fail e)

/-- Units of which the reply is known have matching values. -/
theorem agrees_runAll (hd : d.InMemory t) (hd' : d'.InMemory t)
    (hrun : Scripted run view expected) (h : Matching p q)
    (discard discard' : α → Memory × E → Memory × E) :
    (StatementExecutor.runAll d discard run).Agrees p (StatementExecutor.runAll d' discard' run) q
      fun values _ values' _ => values.map view = values'.map view := by
  obtain ⟨x, w⟩ := p
  obtain ⟨y, v⟩ := q
  obtain rfl : v = w := h.world
  refine agrees_state ?_
  rw [h.isEmpty]
  split
  · exact agrees_fail _
  · have hunits := agrees_runUnits hd hd' hrun h.prepared h.ready discard discard'
    exact hunits.outside.mono fun _ _ _ _ hvalues => hvalues.2.2

/-- A query has matching sources, or the same units fail. -/
theorem agrees_query (hd : d.InMemory t) (hd' : d'.InMemory t) (h : Matching p q) :
    (StatementExecutor.query d).Agrees p (StatementExecutor.query d') q fun sources _ sources' _ =>
      sources.map Source.bare = sources'.map Source.bare := by
  rw [StatementExecutor.query, StatementExecutor.query, hd.provider, hd'.provider]
  exact agrees_runAll hd hd' (fun answers e u mode => owns_queryUnit u.opened mode) h _ _

/-- An update has the same counts, or the same units fail. -/
theorem agrees_update (hd : d.InMemory t) (hd' : d'.InMemory t) (h : Matching p q) :
    (StatementExecutor.update d).Agrees p (StatementExecutor.update d') q
      fun outcomes _ outcomes' _ => outcomes.map (·.affected) = outcomes'.map (·.affected) := by
  rw [StatementExecutor.update, StatementExecutor.update, hd.provider, hd'.provider]
  exact agrees_runAll hd hd' (fun answers e u _ => owns_update u.opened) h _ _

/-! ## Batches -/

/-- The keys that units report make no difference to the counts of the calls. -/
theorem credit_congr (accumulate : Bool) (totals : List UInt64) (units : List BatchUnit)
    {results results' : List (List UInt64 × List Datum)}
    (h : results.map Prod.fst = results'.map Prod.fst) :
    (BatchExecutor.credit accumulate totals (units.zip results)).1 =
      (BatchExecutor.credit accumulate totals (units.zip results')).1 := by
  induction units generalizing totals results results' with
  | nil => rfl
  | cons unit units ih =>
    rcases results with _ | ⟨⟨counts, keys⟩, results⟩ <;>
      rcases results' with _ | ⟨⟨counts', keys'⟩, results'⟩
    · rfl
    · cases h
    · cases h
    · obtain ⟨rfl, hrest⟩ := List.cons.inj h
      rw [List.zip_cons_cons, List.zip_cons_cons, BatchExecutor.credit, BatchExecutor.credit]
      split
      · exact ih _ hrest
      · rfl

/-- A batch has the same counts, or the same units fail. -/
theorem agrees_executeBatch (hd : d.InMemory t) (hd' : d'.InMemory t) (accumulate : Bool)
    (p : BatchExecutor × (Memory × E)) :
    (BatchExecutor.execute d accumulate).Agrees p (BatchExecutor.execute d' accumulate) p
      fun counts _ counts' _ => counts = counts' := by
  have hrelease : BatchExecutor.release d = BatchExecutor.release d' := by
    rw [BatchExecutor.release, BatchExecutor.release, hd.provider, hd'.provider]
  rw [BatchExecutor.execute, BatchExecutor.execute, hrelease]
  refine agrees_state ?_
  generalize p.1 = x
  split
  · exact agrees_pure rfl
  refine agrees_bind_same _ fun _ p => agrees_update_bind ?_
  have hgroups := agrees_prepareGroups hd hd' (x.units.map (·.routeUnit)) p.2
  refine Agrees.bind (Agrees.outside hgroups) ?_
  rintro groups ⟨y, _⟩ groups' ⟨z, v⟩ ⟨-, -, rfl, hprepared, -, hready⟩
  refine agrees_update_bind ?_
  have hresults := agrees_runUnits hd hd' (fun answers e u _ => owns_batchUnit x.units u)
    hprepared hready (fun _ w => w) (fun _ w => w)
  rw [hd.provider, hd'.provider]
  refine hresults.outside.bind ?_
  rintro results _ results' _ ⟨-, -, hcounts⟩
  have hcredit := credit_congr accumulate (List.replicate x.calls 0) x.units hcounts
  generalize BatchExecutor.credit accumulate _ (x.units.zip results) = credited at hcredit ⊢
  generalize BatchExecutor.credit accumulate _ (x.units.zip results') = credited' at hcredit ⊢
  obtain ⟨totals, nativeKeys⟩ := credited
  obtain ⟨totals', nativeKeys'⟩ := credited'
  obtain rfl : totals = totals' := hcredit
  exact agrees_update_bind ((agrees_ofExcept _).mono fun _ _ _ _ h => h.1)

end Memory

end Sharding
