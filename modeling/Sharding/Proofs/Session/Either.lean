import Sharding.Proofs.Execute.Either
import Sharding.Proofs.Handles.Leaks
import Sharding.Proofs.Provider.MemoryBooks
import Sharding.Proofs.Session.Resources

/-!
# Executions of either kind agree with queries and updates

`execute` runs a statement whatever its kind, `executeQuery` and `executeUpdate` one of its kind.
For statements on the provider in memory they agree (`execute_agrees`): from the same session and
world, a query succeeds exactly when its execution answers that there are rows, and then both have
the same result set; another statement is updated with some count exactly when its execution
answers that there are no rows and leaves this count.

The numbers of workers and of connections and the turns of the workers may differ between the two.
-/

namespace Sharding

open Act

variable {E : Type} {l : LogicalStatement (Memory × E)} {t : CancelToken E}
  {p : Session × (Memory × E)}

namespace LogicalStatement

/-- A call that is prepared has a unit in each of its groups. -/
theorem prepareCurrent_gives_units {W : Type} {l : LogicalStatement W} {p : Session × W} :
    l.prepareCurrent.Gives p fun _ p' =>
      p'.1.executor.groups ≠ [] → p'.1.executor.prepared ≠ [] := by
  refine gives_bind fun route q => gives_bind_of_run rfl ?_
  have hprepare : (onExecutor (StatementExecutor.prepare l.dispatcher route.units)).Gives
      ({ q.1 with phase := .executing }, q.2) fun _ p' =>
        p'.1.executor.groups ≠ [] → p'.1.executor.prepared ≠ [] :=
    Gives.within (StatementExecutor.prepare_gives.mono fun _ _ hgroups => ne_nil_of_follows hgroups)
  exact hprepare.bind fun _ _ hunits => gives_of_run rfl hunits

/-- A query is run exactly when its execution has rows, and these are the same. -/
theorem corresponds_runQuery (hl : l.dispatcher.InMemory t) (r : Resources (Memory × E)) :
    l.runQuery.Corresponds p (l.withResources r).runEither p (fun rows => rows ≠ none)
      fun rows _ rows' _ => ∃ either, rows' = some either ∧ either.bare = rows.bare := by
  refine ((agrees_prepareCurrent hl r).and_gives prepareCurrent_gives_units).bind_corresponds ?_
  rintro _ p' route q' ⟨⟨rfl, hmatching⟩, hunits⟩
  refine Corresponds.bind (Corresponds.within
    (Memory.corresponds_query hl (inMemory_withResources hl r) hmatching hunits)) ?_ ?_
  · rintro sources p'' outcomes q'' ⟨hupdates, hne⟩ ⟨u, u', rfl, rfl, hsources⟩
    obtain ⟨source, rest, hcons⟩ := List.exists_cons_of_ne_nil hne
    rw [hupdates, hcons]
    rw [hcons] at hsources
    have hmerge := agrees_merge hl r route.statement hsources.symm u.2 u'.2
    rw [← bind_pure (l.merge route.statement sources).outside]
    refine Agrees.bind_corresponds hmerge.outside fun rows _ rows' _ hrows => ?_
    exact corresponds_pure (Option.some_ne_none rows') ⟨rows', rfl, hrows.2.2.symm⟩
  · intro outcomes q'' hrefused
    split
    · exact gives_bind_of_run rfl (gives_of_run rfl fun hsome => hsome rfl)
    · rename_i hupdates _
      exact (hrefused ⟨hupdates, ‹_›⟩).elim
    · exact gives_bind fun _ _ => gives_fail _

/-- A query succeeds exactly when its execution has rows.  Then both have a result set, and these
are the same but for the handles. -/
theorem corresponds_executeQuery (hl : l.dispatcher.InMemory t) (r : Resources (Memory × E))
    (hkind : l.statement.isQuery = true) :
    l.executeQuery.Corresponds p (l.withResources r).execute p (fun hasRows => hasRows = true)
      fun rows p' _ q' => p'.1.phase = .queryCompleted ∧ p'.1.resultSet = some rows ∧
        q'.1.phase = .queryCompleted ∧
        ∃ either, q'.1.resultSet = some either ∧ either.bare = rows.bare := by
  refine corresponds_bind_same l.beginCall fun _ p' => ?_
  rw [if_neg (by rw [hkind]; decide)]
  refine (corresponds_runQuery hl r).bind_attempt ?_ ?_ ?_
  · rintro rows p'' _ q'' - ⟨either, rfl, hbare⟩
    exact .both rfl rfl rfl ⟨rfl, rfl, rfl, either, rfl, hbare⟩
  · exact fun e p'' => gives_bind fun _ _ => gives_bind fun _ _ => gives_bind fun _ _ => gives_fail e
  · intro reply q'' hrefused
    refine gives_bind fun _ _ => ?_
    rcases reply with e | rows
    · exact gives_bind fun _ _ => gives_bind fun _ _ => gives_fail e
    · obtain rfl : rows = none := by simpa using hrefused rows rfl
      exact gives_bind fun _ _ => gives_bind fun _ _ => gives_of_run rfl Bool.false_ne_true

/-- An update is run exactly when its execution has no rows, and the counts are the same. -/
theorem corresponds_runUpdate (hl : l.dispatcher.InMemory t) (r : Resources (Memory × E)) :
    l.runUpdate.Corresponds p (l.withResources r).runEither p (fun rows => rows = none)
      fun count _ _ q' => q'.1.updateCount = some count := by
  refine ((agrees_prepareCurrent hl r).and_gives prepareCurrent_gives_units).bind_corresponds ?_
  rintro _ p' route q' ⟨⟨rfl, hmatching⟩, hunits⟩
  refine Corresponds.bind (Corresponds.within
    (Memory.corresponds_update hl (inMemory_withResources hl r) hmatching hunits)) ?_ ?_
  · rintro outcomes p'' outcomes' q'' hsources ⟨u, u', rfl, rfl, hcounts⟩
    rw [hsources]
    refine .both rfl rfl rfl ?_
    rw [← hcounts]
    rfl
  · intro outcomes q'' hrefused
    split
    · rename_i hsources
      exact (hrefused hsources).elim
    · exact gives_bind fun _ _ => gives_of_run rfl (Option.some_ne_none _)
    · exact gives_bind fun _ _ => gives_fail _

/-- Another statement is updated exactly when its execution has no rows, and then the counts are
the same. -/
theorem corresponds_executeUpdate (hl : l.dispatcher.InMemory t) (r : Resources (Memory × E))
    (hkind : l.statement.isQuery = false) :
    l.executeUpdate.Corresponds p (l.withResources r).execute p (fun hasRows => hasRows = false)
      fun count _ _ q' => q'.1.phase = .updateCompleted ∧ q'.1.updateCount = some count := by
  refine corresponds_bind_same l.beginCall fun _ p' => ?_
  rw [if_neg (by rw [hkind]; decide)]
  refine (corresponds_runUpdate hl r).bind_attempt ?_ ?_ ?_
  · rintro count p'' _ q'' rfl hcount
    exact .both rfl rfl rfl ⟨rfl, hcount⟩
  · exact fun e p'' => gives_bind fun _ _ => gives_bind fun _ _ => gives_bind fun _ _ => gives_fail e
  · intro reply q'' hrefused
    refine gives_bind fun _ _ => ?_
    rcases reply with e | rows
    · exact gives_bind fun _ _ => gives_bind fun _ _ => gives_fail e
    · obtain ⟨r, rfl⟩ := Option.ne_none_iff_exists'.1 (hrefused rows rfl)
      exact gives_bind fun _ _ => gives_of_run rfl nofun

end LogicalStatement

/-! ## Handles -/

/-- The books of the memory follow a statement whose keys are drawn elsewhere. -/
theorem Memory.follows_books (hl : l.dispatcher.InMemory t)
    (hkeys : ∀ generator, (Memory.books E).Quiet (l.router.keys.draw generator)) :
    (Memory.books E).Follows l where
  provider := by
    rw [hl.provider]
    exact kept_books
  token set w := by
    rw [hl.token]
    exact ⟨rfl, rfl⟩
  keys := hkeys

/-- An execution that answers without rows has completed an update, and holds nothing. -/
theorem Session.Step.released {isQuery : Bool} {request : Request} {s s' : Session}
    {answer : Answer} (h : Step isQuery request s (.ok answer) s')
    (hexecutes : request.executes = true)
    (hanswer : answer = .hasRows false ∨ ∃ n, answer = .count n) :
    s'.phase = .updateCompleted ∧ s'.statementCount = 0 ∧ s'.handles = 0 := by
  cases h with
  | updated => exact ⟨rfl, rfl, rfl⟩
  | queried _ _ hrows =>
    obtain rfl | ⟨n, rfl⟩ := hanswer
    · obtain hrows | hrows := hrows <;> cases hrows
    · obtain hrows | hrows := hrows <;> cases hrows
  | bound _ hbinds => cases request <;> cases hexecutes <;> cases hbinds
  | read hreads => cases request <;> cases hexecutes <;> cases hreads
  | _ => cases hexecutes

/-- A call that keeps the handles of its session and ends without any leaves those of the others. -/
theorem LogicalStatement.has_of_keeps {α : Type} {b : Books (Memory × E)}
    {x : Call (Memory × E) α} (hx : Keeps b x) {a : α} {q : Session × (Memory × E)}
    (hrun : x.run p = (.ok a, q)) (hnone : q.1.handles = 0) {f : Handles}
    (hp : b.Has (p.1.handles + f) p.2) : b.Has f q.2 := by
  have hends := keeps_iff.1 hx p.1 p.2 f hp
  unfold Ends at hends
  rw [hrun] at hends
  dsimp only at hends
  rwa [hnone, zero_add] at hends

/-- Executions of either kind agree with queries and updates. -/
theorem execute_agrees (hl : l.dispatcher.InMemory t)
    (hkeys : ∀ generator, (Memory.books E).Quiet (l.router.keys.draw generator))
    (r : Resources (Memory × E)) (p : Session × (Memory × E)) :
    (l.statement.isQuery = true →
      ((∃ rows q, l.executeQuery.run p = (.ok rows, q)) ↔
        ∃ q', (l.withResources r).execute.run p = (.ok true, q')) ∧
      ∀ rows q q', l.executeQuery.run p = (.ok rows, q) →
        (l.withResources r).execute.run p = (.ok true, q') →
        q.1.phase = .queryCompleted ∧ q'.1.phase = .queryCompleted ∧
        ∃ either, q'.1.resultSet = some either ∧ either.strategy = rows.strategy ∧
          either.columns = rows.columns ∧
          ((l.withResources r).allRows.run q').1 = (l.allRows.run q).1) ∧
    (l.statement.isQuery = false → ∀ n,
      ((∃ q, l.executeUpdate.run p = (.ok n, q)) ↔
        ∃ q', (l.withResources r).execute.run p = (.ok false, q') ∧
          q'.1.lastUpdateCount = some n) ∧
      ∀ q q', l.executeUpdate.run p = (.ok n, q) →
        (l.withResources r).execute.run p = (.ok false, q') →
        q.1.phase = .updateCompleted ∧ q'.1.phase = .updateCompleted ∧
        q.1.statementCount = 0 ∧ q'.1.statementCount = 0 ∧
        ∀ f, (Memory.books E).Has (p.1.handles + f) p.2 →
          (Memory.books E).Has f q.2 ∧ (Memory.books E).Has f q'.2) := by
  refine ⟨fun hkind => ?_, fun hkind n => ?_⟩
  · have hquery := LogicalStatement.corresponds_executeQuery (p := p) hl r hkind
    refine ⟨⟨?_, ?_⟩, ?_⟩
    · rintro ⟨rows, q, hrun⟩
      obtain ⟨_, q', hrun', rfl, -⟩ := hquery.of_left hrun
      exact ⟨q', hrun'⟩
    · rintro ⟨q', hrun'⟩
      obtain ⟨rows, q, hrun, -⟩ := hquery.of_right hrun' rfl
      exact ⟨rows, q, hrun⟩
    · intro rows q q' hrun hrun'
      obtain ⟨_, _, hsame, -, hphase, hrows, hphase', either, heither, hbare⟩ :=
        hquery.of_left hrun
      cases hrun'.symm.trans hsame
      exact ⟨hphase, hphase', either, heither, congrArg (·.strategy) hbare,
        congrArg (·.columns) hbare,
        LogicalStatement.run_allRows_bare hl r hbare.symm hphase hrows hphase' heither⟩
  · have hupdate := LogicalStatement.corresponds_executeUpdate (p := p) hl r hkind
    refine ⟨⟨?_, ?_⟩, ?_⟩
    · rintro ⟨q, hrun⟩
      obtain ⟨_, q', hrun', rfl, hphase, hcount⟩ := hupdate.of_left hrun
      refine ⟨q', hrun', ?_⟩
      rw [Session.lastUpdateCount, if_pos hphase, hcount]
    · rintro ⟨q', hrun', hcount⟩
      obtain ⟨m, q, hrun, hphase, hcount'⟩ := hupdate.of_right hrun' rfl
      rw [Session.lastUpdateCount, if_pos hphase, hcount'] at hcount
      cases hcount
      exact ⟨q, hrun⟩
    · intro q q' hrun hrun'
      have hfollows := Memory.follows_books hl hkeys
      have hfollows' : (Memory.books E).Follows (l.withResources r) :=
        Memory.follows_books (LogicalStatement.inMemory_withResources hl r) hkeys
      obtain ⟨hphase, hcount, hnone⟩ := Session.Step.released
        ((LogicalStatement.executeUpdate_ends (s := p.1)).gives n q hrun) rfl (.inr ⟨n, rfl⟩)
      obtain ⟨hphase', hcount', hnone'⟩ := Session.Step.released
        ((LogicalStatement.execute_ends (s := p.1)).gives false q' hrun') rfl (.inl rfl)
      refine ⟨hphase, hphase', hcount, hcount', fun f hf => ⟨?_, ?_⟩⟩
      · exact LogicalStatement.has_of_keeps (LogicalStatement.keeps_executeUpdate hfollows) hrun
          hnone hf
      · exact LogicalStatement.has_of_keeps (LogicalStatement.keeps_execute hfollows') hrun' hnone' hf

/-- The users of all orders, in order. -/
def usersInOrder : Query where
  kind := .select
  template := { text := "SELECT user_id FROM t_order ORDER BY user_id"
                tokens := [.derived 14, .table 20 7 "t_order"] }
  tables := ["t_order"]
  conditions := []
  shape := { projections := [.column "user_id" none]
             orderBy := [⟨"user_id", .asc, .first⟩] }

/-- The template is the one that scanning the text finds. -/
example : usersInOrder.template = Sql.Template.scan usersInOrder.template.text ["t_order"] := by
  cbv

/-- The query on two shards in memory. -/
def usersQuery : LogicalStatement (Memory × Bool) :=
  { statusUpdate with statement := .query usersInOrder }

/-- Two users on one shard and one on the other. -/
def twoShardsOfUsers : Memory × Bool :=
  (((Memory.ofShards ["ds_0", "ds_1"]).script "ds_0" "SELECT"
    (.ok (.rows ["user_id"] [[.int64 1], [.int64 4]]))).script "ds_1" "SELECT"
      (.ok (.rows ["user_id"] [[.int64 2]])), false)

/-- Three workers and two connections. -/
def threeWorkers : Resources (Memory × Bool) where
  workers := 3
  connections := 2
  turns _ := [1, 1, 0]

/-- A query is executed with the rows of all shards, and an update with its count. -/
theorem execute_agrees_orders :
    (∃ q', (usersQuery.withResources threeWorkers).execute.run ({}, twoShardsOfUsers) =
        (.ok true, q') ∧ q'.1.phase = .queryCompleted ∧
      ((usersQuery.withResources threeWorkers).allRows.run q').1 =
        .ok [[.int64 1], [.int64 2], [.int64 4]]) ∧
    ∃ q', (statusUpdate.withResources threeWorkers).execute.run
        ({ params := [.text "paid"] }, twoShards) = (.ok false, q') ∧
      q'.1.lastUpdateCount = some 7 ∧ (Memory.books Bool).Has 0 q'.2 := by
  have hquery : usersQuery.dispatcher.InMemory .flag := ⟨rfl, rfl⟩
  have hupdate : statusUpdate.dispatcher.InMemory .flag := ⟨rfl, rfl⟩
  have hkeys : ∀ generator, (Memory.books Bool).Quiet (statusUpdate.router.keys.draw generator) :=
    fun _ => Books.quiet_fail _
  constructor
  · have hread : ((do let _ ← usersQuery.executeQuery; usersQuery.allRows :
        LogicalStatement.Call (Memory × Bool) (List Row)).run ({}, twoShardsOfUsers)).1 =
          .ok [[.int64 1], [.int64 2], [.int64 4]] := by cbv
    obtain ⟨rows, q, hrun, hall⟩ := Act.exists_of_bind_eq_ok (Prod.ext hread (Eq.refl _))
    obtain ⟨hiff, hsame⟩ := (execute_agrees hquery hkeys threeWorkers ({}, twoShardsOfUsers)).1 rfl
    obtain ⟨q', hrun'⟩ := hiff.1 ⟨rows, q, hrun⟩
    obtain ⟨-, hphase, -, -, -, -, hrows⟩ := hsame rows q q' hrun hrun'
    exact ⟨q', hrun', hphase, hrows.trans (congrArg Prod.fst hall)⟩
  · have hcount : (statusUpdate.executeUpdate.run ({ params := [.text "paid"] }, twoShards)).1 =
        .ok 7 := by cbv
    obtain ⟨hiff, hsame⟩ :=
      (execute_agrees hupdate hkeys threeWorkers ({ params := [.text "paid"] }, twoShards)).2 rfl 7
    generalize statusUpdate.executeUpdate.run ({ params := [.text "paid"] }, twoShards) = result
      at hcount hiff hsame
    obtain ⟨_, q⟩ := result
    cases hcount
    obtain ⟨q', hrun', hlast⟩ := hiff.1 ⟨q, rfl⟩
    obtain ⟨-, -, -, -, hhandles⟩ := hsame q q' rfl hrun'
    exact ⟨q', hrun', hlast, (hhandles 0 ⟨rfl, le_refl _⟩).2⟩

end Sharding
