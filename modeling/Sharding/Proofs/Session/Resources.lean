import Sharding.Proofs.Execute.Resources
import Sharding.Session.Context

/-!
# Results do not depend on resources

A configuration bounds the workers and the connections of a call, and so decides how its units are
grouped, whether their rows are streamed or read into memory, and which of them run at a time.  None
of that can be seen from its result: for statements on the provider in memory, calls of two contexts
that differ in these numbers and in the turns of the workers give the same rows, the same counts or
the same error (`same_results`).

The calls are compared step by step.  Up to the execution of the units both do the same.  Then the
executors hold the same statements in different groups, and the units have matching values
(`Memory.agrees_runAll`).  Afterwards the worlds differ in the numbers of cursors, in the log and in
the keys drawn; what is left of the call does not look at these.
-/

namespace Sharding

open Act LogicalStatement

variable {E α : Type}

/-- What a configuration says of workers and connections, and the turns of the workers. -/
structure Resources (W : Type) where
  workers : Nat
  connections : Nat
  turns : W → List Nat

/-- A context on the provider in memory, with other resources than its configuration has. -/
def Memory.context (rule : ShardingRule) (keys : KeySource (Memory × E)) (config : Config)
    (resources : Resources (Memory × E)) : Context (Memory × E) where
  rule := rule
  keys := keys
  provider := Memory.beside E
  config :=
    { config with executorSize := resources.workers, maxConnections := resources.connections }
  turns := resources.turns

namespace LogicalStatement

/-- A logical statement whose calls run with other resources. -/
def withResources {W : Type} (l : LogicalStatement W) (r : Resources W) : LogicalStatement W :=
  { l with dispatcher :=
    { l.dispatcher with workers := r.workers, connections := r.connections, turns := r.turns } }

/-- Binds parameters, executes a query and reads all rows. -/
def queriedRows {W : Type} (l : LogicalStatement W) (params : List Datum) : Call W (List Row) := do
  setParameters params
  let _ ← l.executeQuery
  l.allRows

/-- Binds parameters and executes an update. -/
def updatedCount {W : Type} (l : LogicalStatement W) (params : List Datum) : Call W UInt64 := do
  setParameters params
  l.executeUpdate

/-- Queues calls as a batch and executes it. -/
def batchedCounts {W : Type} (l : LogicalStatement W) :
    (calls : List (List Datum)) → Call W (List UInt64)
  | [] => l.executeBatch
  | params :: rest => do
    setParameters params
    let _ ← l.addBatch
    l.batchedCounts rest

variable {l : LogicalStatement (Memory × E)} {t : CancelToken E}
  {p : Session × (Memory × E)}

theorem inMemory_withResources (hl : l.dispatcher.InMemory t) (r : Resources (Memory × E)) :
    (l.withResources r).dispatcher.InMemory t :=
  ⟨hl.provider, hl.token⟩

/-! ## Queries -/

theorem agrees_prepareCurrent (hl : l.dispatcher.InMemory t) (r : Resources (Memory × E)) :
    l.prepareCurrent.Agrees p (l.withResources r).prepareCurrent p fun route p' route' q' =>
      route' = route ∧ Memory.Matching (p'.1.executor, p'.2) (q'.1.executor, q'.2) := by
  refine agrees_bind_same l.routeCurrent fun route p' => ?_
  refine agrees_bind_same (enter .executing) fun _ p'' => ?_
  have hprepare := Memory.agrees_prepare hl (inMemory_withResources hl r) route.units
    (p''.1.executor, p''.2)
  refine Agrees.bind (Agrees.within hprepare (fun _ _ => rfl) fun _ _ => rfl) ?_
  exact fun _ _ _ _ hmatching => agrees_pure ⟨rfl, hmatching⟩

theorem agrees_merge (hl : l.dispatcher.InMemory t) (r : Resources (Memory × E))
    (statement : Statement) {sources sources' : List Source}
    (h : sources.map Source.bare = sources'.map Source.bare) (w w' : Memory × E) :
    (l.merge statement sources).Agrees w ((l.withResources r).merge statement sources') w'
      fun rows _ rows' _ => rows.bare = rows'.bare := by
  have hc : NeverFails l.dispatcher.provider.closeCursor := by
    rw [hl.provider]
    exact Memory.closeCursor_neverFails
  refine agrees_of_result ?_
  exact (mergeSources_bare hc _ _ _ _).trans (h ▸ (mergeSources_bare hc _ _ _ _).symm)

theorem agrees_runQuery (hl : l.dispatcher.InMemory t) (r : Resources (Memory × E)) :
    l.runQuery.Agrees p (l.withResources r).runQuery p fun rows _ rows' _ =>
      rows.bare = rows'.bare := by
  refine (agrees_prepareCurrent hl r).bind ?_
  rintro route p' _ q' ⟨rfl, hmatching⟩
  have hquery := Memory.agrees_query hl (inMemory_withResources hl r) hmatching
  refine Agrees.bind (Agrees.within hquery (fun _ _ => rfl) fun _ _ => rfl) ?_
  intro sources p'' sources' q'' hsources
  exact (Agrees.outside (agrees_merge hl r _ hsources _ _)).mono fun _ _ _ _ h => h.2.2

/-- A query has a result set with the same rows. -/
theorem agrees_executeQuery (hl : l.dispatcher.InMemory t) (r : Resources (Memory × E)) :
    l.executeQuery.Agrees p (l.withResources r).executeQuery p fun rows p' rows' q' =>
      rows.bare = rows'.bare ∧
        (p'.1.phase = .queryCompleted ∧ p'.1.resultSet = some rows) ∧
        (q'.1.phase = .queryCompleted ∧ q'.1.resultSet = some rows') := by
  refine agrees_bind_same l.beginCall fun _ p' => ?_
  by_cases hkind : (!l.statement.isQuery) = true
  · rw [if_pos hkind, if_pos (show (!(l.withResources r).statement.isQuery) = true from hkind)]
    exact agrees_fail_bind _
  rw [if_neg hkind, if_neg (show ¬(!(l.withResources r).statement.isQuery) = true from hkind)]
  refine (agrees_runQuery hl r).bind_attempt ?_ fun e p' q' => ?_
  · intro rows p' rows' q' hrows
    refine agrees_effect_bind (agrees_update_bind ?_)
    exact agrees_pure ⟨hrows, ⟨rfl, rfl⟩, rfl, rfl⟩
  · exact agrees_effect_bind (agrees_effect_bind (agrees_update_bind (agrees_fail e)))

/-- The rows of the current result set. -/
theorem run_allRows {rows : ResultSet} (hphase : p.1.phase = .queryCompleted)
    (hrows : p.1.resultSet = some rows) :
    (l.allRows.run p).1 =
      ((rows.readAll l.dispatcher.provider.closeCursor p.2).1).mapError .error := by
  obtain ⟨⟨phase, _, _, resultSet, _, _, _, _⟩, w⟩ := p
  cases hphase
  cases hrows
  rfl

/-- Result sets that differ in handles only have the same rows. -/
theorem run_allRows_bare (hl : l.dispatcher.InMemory t) (r : Resources (Memory × E))
    {q : Session × (Memory × E)} {rows rows' : ResultSet} (hbare : rows.bare = rows'.bare)
    (hphase : p.1.phase = .queryCompleted) (hrows : p.1.resultSet = some rows)
    (hphase' : q.1.phase = .queryCompleted) (hrows' : q.1.resultSet = some rows') :
    ((l.withResources r).allRows.run q).1 = (l.allRows.run p).1 := by
  have hc : NeverFails l.dispatcher.provider.closeCursor := by
    rw [hl.provider]
    exact Memory.closeCursor_neverFails
  have hread : (rows.readAll l.dispatcher.provider.closeCursor p.2).1 =
      (rows'.readAll l.dispatcher.provider.closeCursor q.2).1 := by
    rw [ResultSet.readAll_bare hc, ResultSet.readAll_bare hc, hbare]
  rw [run_allRows hphase hrows, run_allRows hphase' hrows', hread]
  rfl

/-- Statements with other resources have the same rows. -/
theorem queriedRows_withResources (hl : l.dispatcher.InMemory t) (r : Resources (Memory × E))
    (params : List Datum) :
    (((l.withResources r).queriedRows params).run p).1 = ((l.queriedRows params).run p).1 := by
  symm
  refine agrees_iff_result.1 (agrees_bind_same _ fun _ p' => (agrees_executeQuery hl r).bind ?_)
  rintro rows p'' rows' q'' ⟨hrows, ⟨hphase, hset⟩, hphase', hset'⟩
  exact agrees_iff_result.2 (run_allRows_bare hl r hrows hphase hset hphase' hset').symm

/-! ## Updates -/

theorem agrees_runUpdate (hl : l.dispatcher.InMemory t) (r : Resources (Memory × E)) :
    l.runUpdate.Agrees p (l.withResources r).runUpdate p fun count _ count' _ =>
      count = count' := by
  refine (agrees_prepareCurrent hl r).bind ?_
  rintro route p' _ q' ⟨rfl, hmatching⟩
  have hupdate := Memory.agrees_update hl (inMemory_withResources hl r) hmatching
  refine Agrees.bind (Agrees.within hupdate (fun _ _ => rfl) fun _ _ => rfl) ?_
  intro outcomes p'' outcomes' q'' hcounts
  refine agrees_update_bind (agrees_pure ?_)
  rw [hcounts]
  rfl

/-- Statements with other resources have the same update counts. -/
theorem updatedCount_withResources (hl : l.dispatcher.InMemory t) (r : Resources (Memory × E))
    (params : List Datum) :
    (((l.withResources r).updatedCount params).run p).1 = ((l.updatedCount params).run p).1 := by
  symm
  refine agrees_iff_result.1 (agrees_bind_same _ fun _ p => ?_)
  refine agrees_bind_same l.beginCall fun _ p' => ?_
  by_cases hkind : l.statement.isQuery = true
  · rw [if_pos hkind, if_pos (show (l.withResources r).statement.isQuery = true from hkind)]
    exact agrees_fail_bind _
  rw [if_neg hkind, if_neg (show ¬(l.withResources r).statement.isQuery = true from hkind)]
  refine (agrees_runUpdate hl r).bind_attempt ?_ fun e p' q' => ?_
  · rintro count p' _ q' rfl
    exact agrees_effect_bind (agrees_effect_bind (agrees_update_bind (agrees_pure rfl)))
  · exact agrees_effect_bind (agrees_effect_bind (agrees_update_bind (agrees_fail e)))

/-! ## Batches -/

theorem agrees_executeBatch (hl : l.dispatcher.InMemory t) (r : Resources (Memory × E)) :
    l.executeBatch.Agrees p (l.withResources r).executeBatch p fun counts _ counts' _ =>
      counts = counts' := by
  refine agrees_bind_same ensureOpen fun _ p => ?_
  refine agrees_state ?_
  by_cases hphase : p.1.phase ≠ .batchAccumulating
  · rw [if_pos hphase, if_pos hphase]
    refine agrees_bind_same l.resetResults fun _ p' => ?_
    exact agrees_update_bind (agrees_pure rfl)
  rw [if_neg hphase, if_neg hphase]
  have hexecute := Memory.agrees_executeBatch hl (inMemory_withResources hl r) l.accumulate
    (p.1.batch, p.2)
  -- the batch is given up in either case, which cannot fail
  have hclear : ∀ p q : Session × (Memory × E), Agrees
      (onBatch (BatchExecutor.clear l.dispatcher)) p
      (onBatch (BatchExecutor.clear (l.withResources r).dispatcher)) q fun _ _ _ _ => True :=
    fun _ _ => .ok trivial
  have hclearKeys : ∀ p q : Session × (Memory × E), Agrees
      (onBatch (Act.update BatchExecutor.clearKeys)) p
      (onBatch (Act.update BatchExecutor.clearKeys)) q fun _ _ _ _ => True :=
    fun _ _ => .ok trivial
  refine Agrees.bind_attempt (Agrees.within hexecute (fun _ _ => rfl) fun _ _ => rfl) ?_ ?_
  · rintro counts p' _ q' rfl
    refine (hclear p' q').bind fun _ _ _ _ _ => ?_
    exact agrees_effect_bind (agrees_update_bind (agrees_update_bind (agrees_pure rfl)))
  · intro e p' q'
    refine (hclear p' q').bind fun _ _ _ _ _ => agrees_effect_bind (agrees_update_bind ?_)
    exact (hclearKeys _ _).bind fun _ _ _ _ _ => agrees_fail e

/-- Statements with other resources have the same batch counts. -/
theorem batchedCounts_withResources (hl : l.dispatcher.InMemory t) (r : Resources (Memory × E))
    (calls : List (List Datum)) :
    (((l.withResources r).batchedCounts calls).run p).1 = ((l.batchedCounts calls).run p).1 := by
  symm
  refine agrees_iff_result.1 ?_
  induction calls generalizing p with
  | nil => exact agrees_executeBatch hl r
  | cons params rest ih =>
    refine agrees_bind_same _ fun _ p => ?_
    exact agrees_bind_same l.addBatch fun _ p => ih

end LogicalStatement

/-- Whatever the numbers of workers and connections are, and in whatever order the workers make
their calls, a statement has the same rows, the same counts or the same error. -/
theorem same_results (rule : ShardingRule) (keys : KeySource (Memory × E)) (config : Config)
    (statement : Statement) (token : CancelToken E) (returnsKeys : Bool)
    (r r' : Resources (Memory × E)) (p : Session × (Memory × E)) :
    let l := (Memory.context rule keys config r).prepare statement token.beside returnsKeys
    let l' := (Memory.context rule keys config r').prepare statement token.beside returnsKeys
    (∀ params, ((l.queriedRows params).run p).1 = ((l'.queriedRows params).run p).1) ∧
      (∀ params, ((l.updatedCount params).run p).1 = ((l'.updatedCount params).run p).1) ∧
      ∀ calls, ((l.batchedCounts calls).run p).1 = ((l'.batchedCounts calls).run p).1 := by
  intro l l'
  have hl : l'.dispatcher.InMemory token := ⟨rfl, rfl⟩
  have hsame : l = l'.withResources r := rfl
  rw [hsame]
  exact ⟨queriedRows_withResources hl r, updatedCount_withResources hl r,
    batchedCounts_withResources hl r⟩

end Sharding
