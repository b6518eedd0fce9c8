import Mathlib.Algebra.BigOperators.Group.List.Basic
import Sharding.Execute.Dispatch
import Sharding.Proofs.Act.Yielding
import Sharding.Proofs.Program.Owning

/-!
# Dispatched units

`dispatch_owns` is what dispatching comes to, for inline and for threaded calls alike: when every
unit, run alone, turns the part of the world that it owns into an outcome and a part that comes with
it, then so do all of them together, whatever the shares of the workers and their turns are.  The
outcomes stand in the order of the groups.

`yields_runUnits` is the case of units that own nothing at the start and end with what belongs to
their values: the call has what belongs to the values that it returns, and nothing when it fails.
-/

namespace Sharding

namespace Dispatcher

variable {W M α : Type} [AddCommMonoid M] {holds : M → W → Prop} {d : Dispatcher W}
  {run : UnitRun W α}

/-- A prepared unit with the mode of its connection. -/
abbrev Job := PreparedUnit × ConnectionMode

/-- The jobs of a group. -/
def groupJobs (g : ExecutionGroup) : List Job :=
  g.units.map fun u => (u, g.mode)

/-- The jobs of some groups. -/
def jobs (groups : List ExecutionGroup) : List Job :=
  groups.flatMap groupJobs

/-- The outcome belongs to the job, and `post` holds of its result and of what comes with it. -/
def Settles (post : M → Job → Except Error α → Prop) (m : M) (job : Job) (o : UnitOutcome α) :
    Prop :=
  o.unit = job.1.toIndexedUnit ∧ post m job o.result

variable {post : M → Job → Except Error α → Prop} {own : Job → M}

/-- What is known of a job that is run alone. -/
def RunsAlone (holds : M → W → Prop) (d : Dispatcher W) (run : UnitRun W α) (own : Job → M)
    (post : M → Job → Except Error α → Prop) (job : Job) : Prop :=
  (d.runUnit run job.2 job.1).Owns holds
    (fun result m => ∃ o, result = .ok o ∧ Settles post m job o) (own job)

/-- A job that is cancelled in time is not run. -/
theorem runsAlone_of {job : Job}
    (hcancel : ∀ w f, holds (own job + f) w → d.token.isSet w = true →
      post (own job) job (.error .cancelled))
    (hrun : ∀ w f, holds (own job + f) w → d.token.isSet w = false →
      (run job.1 job.2).Owns holds (fun result m =>
        match result with
        | .ok a => post m job (.ok a)
        | .error (.error e) => post m job (.error e)
        | .error .crash => False) (own job)) : RunsAlone holds d run own post job := by
  intro w f hw
  refine ⟨own job, hw, ?_⟩
  show (if d.token.isSet w = true then _ else _ : Program W (UnitOutcome α)).Owns _ _ _
  cases hset : d.token.isSet w with
  | true =>
    rw [if_pos rfl]
    exact Program.owns_pure ⟨_, rfl, rfl, hcancel w f hw hset⟩
  | false =>
    rw [if_neg Bool.false_ne_true]
    have hattempt : (run job.1 job.2).attempt.Owns holds
        (fun result m => ∃ reply, result = .ok reply ∧ post m job reply) (own job) := by
      refine Program.Owns.attempt ((hrun w f hw hset).mono ?_)
      rintro (⟨e | _⟩ | a) m hpost
      · exact ⟨_, rfl, hpost⟩
      · exact hpost.elim
      · exact ⟨_, rfl, hpost⟩
    refine hattempt.bind ?_ ?_
    · rintro reply m ⟨_, ⟨⟩, hpost⟩
      exact Program.owns_pure ⟨_, rfl, rfl, hpost⟩
    · rintro stop m ⟨_, ⟨⟩, -⟩

theorem owns_runGroup {g : ExecutionGroup}
    (h : ∀ job ∈ groupJobs g, RunsAlone holds d run own post job) :
    (d.runGroup run g).Owns holds
      (fun result m => ∃ os, result = .ok os ∧ Allotted (Settles post) m (groupJobs g) os)
      ((groupJobs g).map own).sum := by
  rw [groupJobs, List.map_map]
  refine (Program.owns_mapM (R := fun m u => Settles post m (u, g.mode)) fun u hu => ?_).mono ?_
  · exact h (u, g.mode) (List.mem_map.2 ⟨u, hu, rfl⟩)
  · rintro result m ⟨os, rfl, hos⟩
    exact ⟨os, rfl, Allotted.map_left_iff.2 hos⟩

theorem owns_runGroups {groups : List ExecutionGroup}
    (h : ∀ job ∈ jobs groups, RunsAlone holds d run own post job) :
    (d.runGroups run groups).Owns holds
      (fun result m => ∃ os, result = .ok os ∧ Allotted (Settles post) m (jobs groups) os)
      ((jobs groups).map own).sum := by
  have hsum : ((jobs groups).map own).sum =
      (groups.map fun g => ((groupJobs g).map own).sum).sum := by
    rw [jobs, List.map_flatMap, List.flatMap_def, List.sum_flatten, List.map_map]
    rfl
  rw [hsum]
  refine (Program.owns_mapM fun g hg => owns_runGroup fun job hjob =>
    h job (List.mem_flatMap.2 ⟨g, hg, hjob⟩)).bind ?_ ?_
  · rintro oss m ⟨_, ⟨⟩, hoss⟩
    refine Program.owns_pure ⟨_, rfl, ?_⟩
    exact (Allotted.map_left_iff.2 hoss).flatten
  · rintro stop m ⟨_, ⟨⟩, -⟩

theorem flatten_shares (groups : List ExecutionGroup) :
    (d.shares groups).flatten = groups :=
  flatten_chunks _ _

/-- Units that are run by a dispatcher have the outcomes that each of them would have alone. -/
theorem dispatch_owns {groups : List ExecutionGroup}
    (h : ∀ job ∈ jobs groups, RunsAlone holds d run own post job) {w : W} {f : M}
    (hw : holds (((jobs groups).map own).sum + f) w) :
    ∃ os w' m, (d.dispatch run groups).run w = (.ok os, w') ∧
      Allotted (Settles post) m (jobs groups) os ∧ holds (m + f) w' := by
  unfold dispatch
  by_cases hinline : d.runsInline groups = true
  · rw [if_pos hinline]
    obtain ⟨m, hm, os, hresult, hos⟩ := (owns_runGroups h).run hw
    exact ⟨os, _, m, Prod.ext hresult rfl, hos, hm⟩
  · rw [if_neg hinline]
    have hjobs : jobs groups = ((d.shares groups).map jobs).flatten := by
      conv_lhs => rw [← d.flatten_shares groups]
      rw [jobs, List.flatMap_def, List.map_flatten, List.flatten_flatten, List.map_map]
      rfl
    have hsum : ((jobs groups).map own).sum =
        ((d.shares groups).map fun share => ((jobs share).map own).sum).sum := by
      rw [hjobs, List.map_flatten, List.sum_flatten, List.map_map, List.map_map]
      rfl
    rw [hsum] at hw
    have hshares : Allotted (Program.Owning holds)
        ((d.shares groups).map fun share => ((jobs share).map own).sum).sum
        ((d.shares groups).map fun share result m =>
          ∃ os, result = .ok os ∧ Allotted (Settles post) m (jobs share) os)
        ((d.shares groups).map (d.runGroups run)) := by
      refine Allotted.of_map fun share hshare => owns_runGroups fun job hjob => h job ?_
      rw [hjobs]
      exact List.mem_flatten.2 ⟨_, List.mem_map.2 ⟨share, hshare, rfl⟩, hjob⟩
    obtain ⟨m, hm, hresults⟩ := Program.interleave_owns (d.turns w) hshares hw
    refine ⟨_, _, m, rfl, ?_, hm⟩
    rw [hjobs]
    refine (Allotted.map_left_iff.2 ((Allotted.map_left_iff.1 hresults).zipWith ?_)).flatten
    rintro share result m ⟨os, rfl, hos⟩
    exact hos

end Dispatcher

/-! ## Collecting the outcomes -/

section Collecting

open Act

variable {W M α : Type} [AddCommMonoid M] {holds : M → W → Prop} {discard : α → W → W}
  {held : α → M}

theorem holds_discard (hdiscard : ∀ a w f, holds (held a + f) w → holds f (discard a w))
    {values : List α} {w : W} {f : M} (hw : holds ((values.map held).sum + f) w) :
    holds f (values.foldl (fun w a => discard a w) w) := by
  induction values generalizing w with
  | nil => rwa [List.map_nil, List.sum_nil, zero_add] at hw
  | cons a values ih =>
    rw [List.map_cons, List.sum_cons, add_assoc] at hw
    exact ih (hdiscard a w _ hw)

/-- What comes with outcomes is what belongs to the values among them. -/
theorem sum_values (os : List (UnitOutcome α)) :
    ((os.filterMap fun o => o.result.toOption).map held).sum =
      (os.map fun o => partOf held o.result).sum := by
  induction os with
  | nil => rfl
  | cons o os ih =>
    rw [List.map_cons, List.sum_cons, ← ih]
    cases hresult : o.result with
    | ok a => simp [hresult, Except.toOption, partOf]
    | error e => simp [hresult, Except.toOption, partOf]

theorem eq_sum_of_settles {m : M} {jobs : List Dispatcher.Job} {os : List (UnitOutcome α)}
    (h : Allotted (Dispatcher.Settles fun m _ result => m = partOf held result) m jobs os) :
    m = (os.map fun o => partOf held o.result).sum := by
  induction h with
  | nil => rfl
  | cons hjob _ ih => rw [List.map_cons, List.sum_cons, ← ih, hjob.2]

/-- The values that are returned keep what belongs to them; those that are discarded do not. -/
theorem yields_collectOutcomes
    (hdiscard : ∀ a w f, holds (held a + f) w → holds f (discard a w))
    (os : List (UnitOutcome α)) :
    Yields holds (os.map fun o => partOf held o.result).sum (collectOutcomes discard os)
      fun values => (values.map held).sum := by
  intro w f hw
  have hperm := os.mergeSort_perm fun a b => a.unit.index ≤ b.unit.index
  rw [← (hperm.map _).sum_eq, ← sum_values] at hw
  unfold collectOutcomes
  dsimp only
  split
  · exact hw
  · exact holds_discard hdiscard hw

/-- Units that end with what belongs to their values, all together. -/
theorem Dispatcher.yields_runUnits {d : Dispatcher W} {run : UnitRun W α}
    {groups : List ExecutionGroup}
    (hrun : ∀ u mode, (run u mode).Owns holds (Program.EndsWith held) 0)
    (hdiscard : ∀ a w f, holds (held a + f) w → holds f (discard a w)) :
    Yields holds 0 (do collectOutcomes discard (← d.dispatch run groups))
      fun values => (values.map held).sum := by
  intro w f hw
  have hjobs : ∀ job ∈ jobs groups, RunsAlone holds d run (fun _ => 0)
      (fun m _ result => m = partOf held result) job := by
    refine fun job _ => runsAlone_of (fun _ _ _ _ => rfl) fun _ _ _ _ => (hrun job.1 job.2).mono ?_
    rintro (⟨e | _⟩ | a) m hm
    · exact hm
    · exact hm
    · exact hm
  have hown : ((jobs groups).map fun _ => (0 : M)).sum = 0 := List.sum_map_zero
  rw [← hown] at hw
  obtain ⟨os, w', m, hdispatch, hos, hw'⟩ := dispatch_owns hjobs hw
  rw [ends_bind]
  unfold Ends
  rw [hdispatch]
  rw [eq_sum_of_settles hos] at hw'
  exact yields_collectOutcomes hdiscard os w' f hw'

end Collecting

end Sharding
