import Sharding.Proofs.Act.Corresponding
import Sharding.Proofs.Execute.Reporting

/-!
# Executions of either kind

A unit that is executed, whatever its kind, answers as it would as a query or as an update, as far as
its shard has rows or a count for it.  So units run as queries succeed exactly when all of them are
executed with rows, and units run as updates when all of them are executed with counts
(`Memory.corresponds_query` and `Memory.corresponds_update`).  Then there are as many answers as
units.
-/

namespace Sharding

open Act

variable {E α α' β β' : Type}

/-! ## Collecting -/

section Collecting

open Dispatcher

variable {W W' : Type} {reply : PreparedUnit → Except Error β}
  {reply' : PreparedUnit → Except Error β'} {embed : β → β'}

/-- Units succeed with some values when they succeed with these values in the other replies. -/
theorem succeeding_embed_iff (h : ∀ u b, reply u = .ok b ↔ reply' u = .ok (embed b))
    {units : List PreparedUnit} {values : List β} :
    units.map reply = values.map .ok ↔ units.map reply' = (values.map embed).map .ok := by
  induction units generalizing values with
  | nil => cases values <;> simp
  | cons u units ih =>
    cases values with
    | nil => simp
    | cons b values => simp only [List.map_cons, List.cons.injEq, h, ih]

variable {view : α → β} {view' : α' → β'} {os : List (UnitOutcome α)} {os' : List (UnitOutcome α')}
  {units : List PreparedUnit}

/-- Outcomes without a failure are collected to values in unit order. -/
theorem run_collectOutcomes {discard : α → W → W} (h : os.map (·.map view) = units.map (outcomeOf reply))
    {values : List β} (hvalues : (units.mergeSort fun u v => u.index ≤ v.index).map reply =
      values.map .ok) (w : W) :
    ∃ collected, (collectOutcomes discard os).run w = (.ok collected, w) ∧
      collected.map view = values := by
  have hfailures : UnitOutcome.failures os = [] := by
    rw [← UnitOutcome.failures_map view, h, failures_map_outcomeOf]
    exact failuresOf_eq_nil_iff.2 ⟨values, hvalues⟩
  refine ⟨UnitOutcome.values os, ?_, ?_⟩
  · rw [collectOutcomes_eq, hfailures]
    rfl
  · rw [← UnitOutcome.values_map, h, values_map_outcomeOf]
    exact valuesOf_of_succeeding hvalues

/-- When values are collected, all units have succeeded. -/
theorem collectOutcomes_gives {discard : α → W → W}
    (h : os.map (·.map view) = units.map (outcomeOf reply)) (w : W) :
    (collectOutcomes discard os).Gives w fun collected _ =>
      (units.mergeSort fun u v => u.index ≤ v.index).map reply =
        (collected.map view).map .ok := by
  rw [collectOutcomes_eq]
  split
  · rename_i hfailures
    refine gives_of_run rfl ?_
    rw [List.isEmpty_iff, ← UnitOutcome.failures_map view, h, failures_map_outcomeOf] at hfailures
    obtain ⟨values, hvalues⟩ := failuresOf_eq_nil_iff.1 hfailures
    rw [← UnitOutcome.values_map, h, values_map_outcomeOf, valuesOf_of_succeeding hvalues]
    exact hvalues
  · exact gives_bind fun _ _ => gives_fail _

/-- Values are collected on one side exactly when values of this kind are collected on the other. -/
theorem corresponds_collectOutcomes (discard : α → W → W) (discard' : α' → W' → W')
    (hreply : ∀ u b, reply u = .ok b ↔ reply' u = .ok (embed b))
    (h : os.map (·.map view) = units.map (outcomeOf reply))
    (h' : os'.map (·.map view') = units.map (outcomeOf reply')) (w : W) (w' : W') :
    (collectOutcomes discard os).Corresponds w (collectOutcomes discard' os') w'
      (fun values' => ∃ values : List β, values'.map view' = values.map embed)
      fun values _ values' _ => values'.map view' = (values.map view).map embed ∧
        values.length = units.length := by
  by_cases hall : ∃ values : List β,
      (units.mergeSort fun u v => u.index ≤ v.index).map reply = values.map .ok
  · obtain ⟨values, hvalues⟩ := hall
    obtain ⟨collected, hrun, hview⟩ := run_collectOutcomes h hvalues w
    obtain ⟨collected', hrun', hview'⟩ :=
      run_collectOutcomes h' ((succeeding_embed_iff hreply).1 hvalues) w'
    refine .both hrun hrun' ⟨values, hview'⟩ ⟨by rw [hview, hview'], ?_⟩
    have hlength := congrArg List.length hvalues
    rw [List.length_map, List.length_map, List.length_mergeSort, ← hview, List.length_map] at hlength
    exact hlength.symm
  · refine .neither ?_ ?_
    · exact (collectOutcomes_gives h w).mono fun collected _ hvalues => hall ⟨_, hvalues⟩
    · refine (collectOutcomes_gives h' w').mono fun collected _ hvalues hpass => ?_
      obtain ⟨values, hview⟩ := hpass
      rw [hview] at hvalues
      exact hall ⟨values, (succeeding_embed_iff hreply).2 hvalues⟩

end Collecting

/-! ## Running units -/

namespace Memory

variable {t : CancelToken E} {d d' : Dispatcher (Memory × E)}
  {p q : StatementExecutor × (Memory × E)}
  {run : Dispatcher.UnitRun (Memory × E) α} {view : α → β}
  {run' : Dispatcher.UnitRun (Memory × E) α'} {view' : α' → β'}
  {expected : (String → String → Except Error Response) → PreparedUnit → Except Error β}
  {expected' : (String → String → Except Error Response) → PreparedUnit → Except Error β'}
  {embed : β → β'}

theorem unlessCancelled_embed_iff {e : E} {reply : Except Error β} {reply' : Except Error β'}
    {b : β} (h : reply = .ok b ↔ reply' = .ok (embed b)) :
    unlessCancelled t e reply = .ok b ↔ unlessCancelled t e reply' = .ok (embed b) := by
  unfold unlessCancelled
  split
  · exact iff_of_false nofun nofun
  · exact h

/-- Units that are dispatched succeed in one way exactly when they succeed in the other way with
values of this kind. -/
theorem corresponds_runUnits {w : Memory × E} (hd : d.InMemory t) (hd' : d'.InMemory t)
    (hrun : Scripted run view expected) (hrun' : Scripted run' view' expected')
    (hreply : ∀ answers u b, expected answers u = .ok b ↔ expected' answers u = .ok (embed b))
    {groups groups' : List ExecutionGroup}
    (hunits : groups'.flatMap (·.units) = groups.flatMap (·.units))
    (h : Ready (groups.flatMap (·.units)) w) (discard : α → Memory × E → Memory × E)
    (discard' : α' → Memory × E → Memory × E) :
    (do collectOutcomes discard (← d.dispatch run groups) : Act (Memory × E) (List α)).Corresponds w
      (do collectOutcomes discard' (← d'.dispatch run' groups')) w
      (fun values' => ∃ values : List β, values'.map view' = values.map embed)
      fun values _ values' _ => values'.map view' = (values.map view).map embed ∧
        values.length = (groups.flatMap (·.units)).length := by
  obtain ⟨os, v, hos, hview⟩ := run_dispatch hd hrun h
  obtain ⟨os', v', hos', hview'⟩ := run_dispatch hd' hrun' (hunits ▸ h)
  rw [hunits] at hview'
  refine (corresponds_collectOutcomes discard discard' (fun u b => unlessCancelled_embed_iff
    (hreply w.1.answer u b)) hview hview' v v').congr ?_ ?_
  · rw [run_bind, hos]
  · rw [run_bind, hos']

/-- All prepared units succeed in one way exactly when they succeed in the other way with values of
this kind.  Then there is some value. -/
theorem corresponds_runAll (hd : d.InMemory t) (hd' : d'.InMemory t)
    (hrun : Scripted run view expected) (hrun' : Scripted run' view' expected')
    (hreply : ∀ answers u b, expected answers u = .ok b ↔ expected' answers u = .ok (embed b))
    (h : Matching p q) (hunits : p.1.groups ≠ [] → p.1.prepared ≠ [])
    (discard : α → Memory × E → Memory × E) (discard' : α' → Memory × E → Memory × E) :
    (StatementExecutor.runAll d discard run).Corresponds p
      (StatementExecutor.runAll d' discard' run') q
      (fun values' => ∃ values : List β, values'.map view' = values.map embed)
      fun values _ values' _ => values'.map view' = (values.map view).map embed ∧ values ≠ [] := by
  obtain ⟨x, w⟩ := p
  obtain ⟨y, v⟩ := q
  obtain rfl : v = w := h.world
  refine corresponds_state ?_
  rw [h.isEmpty]
  split
  · exact .neither (gives_fail _) (gives_fail _)
  rename_i hgroups
  have hprepared : x.prepared ≠ [] := hunits (by simpa using hgroups)
  have hvalues := corresponds_runUnits hd hd' hrun hrun' hreply h.prepared h.ready discard discard'
  refine hvalues.outside.mono fun values _ values' _ hpost => ⟨hpost.2.2.1, fun hnil => ?_⟩
  have hlength := hpost.2.2.2
  rw [hnil] at hlength
  exact hprepared (List.eq_nil_of_length_eq_zero hlength.symm)

/-- Outcomes that are shown as rows are rows. -/
theorem map_view_eq_inl_iff {outcomes : List Outcome} {sources : List Source} :
    outcomes.map Memory.view = sources.map .inl ↔
      Outcome.updates outcomes = [] ∧ (Outcome.sources outcomes).map Source.bare = sources := by
  induction outcomes generalizing sources with
  | nil => cases sources <;> simp [Outcome.updates, Outcome.sources]
  | cons outcome outcomes ih =>
    cases outcome with
    | rows s =>
      cases sources with
      | nil => simp [Outcome.sources]
      | cons source sources =>
        simp only [List.map_cons, List.cons.injEq, ih, Memory.view, Sum.inl.injEq, Outcome.updates,
          Outcome.sources, List.filterMap_cons]
        exact ⟨fun h => ⟨h.2.1, h.1, h.2.2⟩, fun h => ⟨h.2.1, h.1, h.2.2⟩⟩
    | update u => cases sources <;> simp [Memory.view, Outcome.updates]

/-- Outcomes that are shown as counts are counts. -/
theorem map_view_eq_inr_iff {outcomes : List Outcome} {counts : List UInt64} :
    outcomes.map Memory.view = counts.map .inr ↔
      Outcome.sources outcomes = [] ∧ (Outcome.updates outcomes).map (·.affected) = counts := by
  induction outcomes generalizing counts with
  | nil => cases counts <;> simp [Outcome.updates, Outcome.sources]
  | cons outcome outcomes ih =>
    cases outcome with
    | update u =>
      cases counts with
      | nil => simp [Outcome.updates]
      | cons count counts =>
        simp only [List.map_cons, List.cons.injEq, ih, Memory.view, Sum.inr.injEq, Outcome.updates,
          Outcome.sources, List.filterMap_cons]
        exact ⟨fun h => ⟨h.2.1, h.1, h.2.2⟩, fun h => ⟨h.2.1, h.1, h.2.2⟩⟩
    | rows s => cases counts <;> simp [Memory.view, Outcome.sources]

/-- Units succeed as queries exactly when all of them are executed with rows. -/
theorem corresponds_query (hd : d.InMemory t) (hd' : d'.InMemory t) (h : Matching p q)
    (hunits : p.1.groups ≠ [] → p.1.prepared ≠ []) :
    (StatementExecutor.query d).Corresponds p (StatementExecutor.execute d') q
      (fun outcomes => Outcome.updates outcomes = [] ∧ Outcome.sources outcomes ≠ [])
      fun sources _ outcomes _ =>
        (Outcome.sources outcomes).map Source.bare = sources.map Source.bare := by
  rw [StatementExecutor.query, StatementExecutor.execute, hd.provider, hd'.provider]
  refine (corresponds_runAll hd hd' (fun answers e u mode => owns_queryUnit u.opened mode)
    (fun answers e u mode => owns_executeUnit u.opened mode)
    (fun answers u s => queryReply_eq_ok_iff) h hunits _ _).imp ?_ ?_
  · rintro outcomes ⟨hupdates, -⟩
    exact ⟨_, map_view_eq_inl_iff.2 ⟨hupdates, rfl⟩⟩
  · rintro sources - outcomes - - ⟨hview, hne⟩
    obtain ⟨hupdates, hsources⟩ := map_view_eq_inl_iff.1 hview
    refine ⟨⟨hupdates, fun hnil => hne ?_⟩, hsources⟩
    rw [hnil] at hsources
    exact List.map_eq_nil_iff.1 hsources.symm

/-- Units succeed as updates exactly when all of them are executed with counts. -/
theorem corresponds_update (hd : d.InMemory t) (hd' : d'.InMemory t) (h : Matching p q)
    (hunits : p.1.groups ≠ [] → p.1.prepared ≠ []) :
    (StatementExecutor.update d).Corresponds p (StatementExecutor.execute d') q
      (fun outcomes => Outcome.sources outcomes = [])
      fun outcomes _ outcomes' _ =>
        (Outcome.updates outcomes').map (·.affected) = outcomes.map (·.affected) := by
  rw [StatementExecutor.update, StatementExecutor.execute, hd.provider, hd'.provider]
  refine (corresponds_runAll hd hd' (fun answers e u _ => owns_update u.opened)
    (fun answers e u mode => owns_executeUnit u.opened mode)
    (fun answers u n => updateReply_eq_ok_iff) h hunits _ _).imp ?_ ?_
  · intro outcomes hsources
    exact ⟨_, map_view_eq_inr_iff.2 ⟨hsources, rfl⟩⟩
  · rintro outcomes - outcomes' - - ⟨hview, -⟩
    exact map_view_eq_inr_iff.1 hview

end Memory

end Sharding
