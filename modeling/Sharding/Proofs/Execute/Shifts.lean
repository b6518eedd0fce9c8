import Sharding.Proofs.Execute.Dispatch
import Sharding.Proofs.Program.Finishing

/-!
# Shifts of workers

A worker that crashes takes what it has done with it, so its outcomes cannot be told from its
result.  `Dispatcher.shift` makes the calls of a worker and ends with its `Shift`: the outcomes of
the units that it ran, and the unit at which it crashed, if it did.

* `runGroups_eq_finish`: a worker is its shift, of which only a crash is left when it crashes.
* `run_dispatch_of_shifts`: what a threaded call comes to in terms of the shifts of its workers.
* `owns_shift`: a shift leaves in the world what belongs to the values of its outcomes.
-/

namespace Sharding

/-- What a worker has done: the outcomes of the units that it ran, and the unit at which it
crashed. -/
structure Shift (α : Type) where
  outcomes : List (UnitOutcome α)
  crashedAt : Option IndexedUnit

namespace Shift

variable {α : Type}

/-- One more outcome, of a unit that was run before. -/
def after (o : UnitOutcome α) (s : Shift α) : Shift α :=
  { s with outcomes := o :: s.outcomes }

/-- The values of the units that were run. -/
def values (s : Shift α) : List α :=
  s.outcomes.filterMap fun o => o.result.toOption

/-- What the worker ends with. -/
def result (s : Shift α) : Except Stop (List (UnitOutcome α)) :=
  match s.crashedAt with
  | none => .ok s.outcomes
  | some _ => .error .crash

/-- The shift has an outcome for each of the units, or for those before the one at which the worker
crashed. -/
def Covers (units : List IndexedUnit) (s : Shift α) : Prop :=
  ∃ rest, units = s.outcomes.map (·.unit) ++ rest ∧ rest.head? = s.crashedAt

end Shift

namespace Dispatcher

open Act Program

variable {W α : Type} (d : Dispatcher W) (run : UnitRun W α)

/-- Runs a unit, unless the call is cancelled.  There is no outcome when the unit crashes. -/
def watchUnit (job : Job) : Program W (Option (UnitOutcome α)) := do
  if ← ofAct d.token.read then return some ⟨job.1.toIndexedUnit, .error .cancelled⟩
  else return (← (run job.1 job.2).endure).map (UnitOutcome.mk job.1.toIndexedUnit)

/-- The shift of a worker that has some jobs. -/
def shift : List Job → Program W (Shift α)
  | [] => return ⟨[], none⟩
  | job :: rest => do
    match ← d.watchUnit run job with
    | none => return ⟨[], some job.1.toIndexedUnit⟩
    | some o => return (← shift rest).after o

/-! ## The programs of workers -/

theorem runUnit_eq_finish (job : Job) :
    d.runUnit run job.2 job.1 = (d.watchUnit run job).finish orCrash := by
  rw [runUnit, watchUnit, finish_bind]
  refine congrArg (ofAct d.token.read >>= ·) (funext fun cancelled => ?_)
  cases cancelled with
  | true => rfl
  | false =>
    rw [if_neg Bool.false_ne_true, if_neg Bool.false_ne_true, attempt_eq_finish, finish_bind]
    show (endure _ >>= fun a => done (orCrash a)) >>= _ = _
    rw [bind_assoc]
    refine congrArg (endure _ >>= ·) (funext fun reply => ?_)
    cases reply <;> rfl

theorem mapM_runUnit_eq_finish (js : List Job) :
    (js.mapM fun job => d.runUnit run job.2 job.1) = (d.shift run js).finish Shift.result := by
  induction js with
  | nil => rfl
  | cons job js ih =>
    rw [List.mapM_cons, runUnit_eq_finish, ih, shift, finish_bind]
    show (d.watchUnit run job >>= fun a => done (orCrash a)) >>= _ = _
    rw [bind_assoc]
    refine congrArg (d.watchUnit run job >>= ·) (funext fun o => ?_)
    cases o with
    | none => rfl
    | some o =>
      show (d.shift run js >>= fun s => done s.result) >>= _ = (d.shift run js >>= _) >>= _
      rw [bind_assoc, bind_assoc]
      refine congrArg (d.shift run js >>= ·) (funext fun s => ?_)
      obtain ⟨outcomes, _ | u⟩ := s <;> rfl

theorem runGroups_eq_mapM (groups : List ExecutionGroup) :
    d.runGroups run groups = (jobs groups).mapM fun job => d.runUnit run job.2 job.1 := by
  rw [runGroups]
  induction groups with
  | nil => rfl
  | cons g groups ih =>
    have hgroup : d.runGroup run g = (groupJobs g).mapM fun job => d.runUnit run job.2 job.1 := by
      rw [runGroup, groupJobs, List.mapM_map]
      rfl
    rw [List.mapM_cons, jobs, List.flatMap_cons, List.mapM_append, ← hgroup, ← jobs, ← ih]
    simp only [LawfulMonad.bind_assoc, LawfulMonad.pure_bind, List.flatten_cons]

/-- A worker is its shift, read up to the crash. -/
theorem runGroups_eq_finish (groups : List ExecutionGroup) :
    d.runGroups run groups = (d.shift run (jobs groups)).finish Shift.result := by
  rw [runGroups_eq_mapM, mapM_runUnit_eq_finish]

/-- What a threaded call comes to: a worker reports its outcomes, or that all its units crashed. -/
theorem run_dispatch_of_shifts {groups : List ExecutionGroup} {shifts : List (Shift α)} {w w' : W}
    (hthreaded : d.runsInline groups = false)
    (h : interleave (d.turns w) ((d.shares groups).map fun share => d.shift run (jobs share)) w =
      (shifts.map .ok, w')) :
    (d.dispatch run groups).run w =
      (.ok (List.zipWith (fun share s => outcomesOf share s.result) (d.shares groups)
        shifts).flatten, w') := by
  have hprograms : (d.shares groups).map (d.runGroups run) =
      ((d.shares groups).map fun share => d.shift run (jobs share)).map (finish Shift.result) := by
    rw [List.map_map]
    exact List.map_congr_left fun share _ => d.runGroups_eq_finish run share
  have hresults : (shifts.map Except.ok).map (· >>= Shift.result) = shifts.map Shift.result := by
    rw [List.map_map]
    rfl
  rw [dispatch, hthreaded, if_neg Bool.false_ne_true, Act.run_ofRun, hprograms, interleave_finish,
    h]
  dsimp only
  rw [hresults, List.zipWith_map_right]

/-! ## What shifts leave -/

variable {d run} {M : Type} [AddCommMonoid M] {holds : M → W → Prop} {held : α → M}

theorem owns_watchUnit (hrun : ∀ u mode, (run u mode).Owns holds (Leaves held) 0) (job : Job) :
    (d.watchUnit run job).Owns holds (fun result m => ∃ o, result = .ok o ∧
      (∀ o', o = some o' → o'.unit = job.1.toIndexedUnit) ∧
      m = match o with
        | some o => partOf held o.result
        | none => 0) 0 := by
  intro w f hw
  refine ⟨0, hw, ?_⟩
  show (if d.token.isSet w = true then _ else _ : Program W (Option (UnitOutcome α))).Owns _ _ _
  cases d.token.isSet w with
  | true =>
    rw [if_pos rfl]
    refine owns_pure ⟨_, rfl, ?_, rfl⟩
    rintro _ ⟨⟩
    rfl
  | false =>
    rw [if_neg Bool.false_ne_true]
    refine (hrun job.1 job.2).endure.bind ?_ ?_
    · rintro reply m ⟨_, ⟨⟩, rfl⟩
      refine owns_pure ⟨_, rfl, ?_, ?_⟩
      · intro o ho
        obtain ⟨result, -, rfl⟩ := Option.map_eq_some_iff.1 ho
        rfl
      · rcases reply with _ | _ | _ <;> rfl
    · rintro stop m ⟨_, ⟨⟩, -⟩

/-- A shift never stops short.  What belongs to the values of its outcomes is there at its end. -/
theorem owns_shift (hrun : ∀ u mode, (run u mode).Owns holds (Leaves held) 0) (js : List Job) :
    (d.shift run js).Owns holds (fun result m => ∃ s, result = .ok s ∧
      s.Covers (js.map (·.1.toIndexedUnit)) ∧ m = (s.values.map held).sum) 0 := by
  induction js with
  | nil => exact owns_pure ⟨_, rfl, ⟨[], rfl, rfl⟩, rfl⟩
  | cons job js ih =>
    refine (owns_watchUnit hrun job).bind ?_ ?_
    · rintro (_ | o) m ⟨_, ⟨⟩, hunit, rfl⟩
      · exact owns_pure ⟨_, rfl, ⟨_, rfl, rfl⟩, rfl⟩
      · have hrest := ih.frame (partOf held o.result)
        rw [zero_add] at hrest
        refine hrest.bind ?_ ?_
        · rintro s _ ⟨m, rfl, _, ⟨⟩, ⟨rest, hrest, hcrashed⟩, rfl⟩
          refine owns_pure ⟨_, rfl, ⟨rest, ?_, hcrashed⟩, ?_⟩
          · rw [List.map_cons, hrest, ← hunit o rfl]
            rfl
          · rw [Shift.values, Shift.values, sum_values, sum_values, add_comm]
            rfl
        · rintro stop _ ⟨_, _, _, ⟨⟩, -⟩
    · rintro stop m ⟨_, ⟨⟩, -⟩

/-- The shifts of all workers, whatever their turns are. -/
theorem exists_shifts (hrun : ∀ u mode, (run u mode).Owns holds (Leaves held) 0)
    (shares : List (List ExecutionGroup)) (turns : List Nat) {w : W} {f : M} (hw : holds f w) :
    ∃ (shifts : List (Shift α)) (w' : W),
      interleave turns (shares.map fun share => d.shift run (jobs share)) w =
        (shifts.map .ok, w') ∧
      List.Forall₂ (fun share s => s.Covers ((jobs share).map (·.1.toIndexedUnit))) shares shifts ∧
      holds (((shifts.flatMap Shift.values).map held).sum + f) w' := by
  have hshares : Allotted (Owning holds) (shares.map fun _ => (0 : M)).sum
      (shares.map fun share result m => ∃ s, result = .ok s ∧
        s.Covers ((jobs share).map (·.1.toIndexedUnit)) ∧ m = (s.values.map held).sum)
      (shares.map fun share => d.shift run (jobs share)) :=
    Allotted.of_map fun share _ => owns_shift hrun (jobs share)
  have hstart : holds ((shares.map fun _ => (0 : M)).sum + f) w := by
    rwa [List.sum_map_zero, zero_add]
  obtain ⟨m, hm, hresults⟩ := interleave_owns turns hshares hstart
  generalize interleave turns (shares.map fun share => d.shift run (jobs share)) w = ended
    at hm hresults
  obtain ⟨results, w'⟩ := ended
  dsimp only at hm hresults
  have hshifts : ∃ shifts : List (Shift α), results = shifts.map .ok ∧
      List.Forall₂ (fun share s => s.Covers ((jobs share).map (·.1.toIndexedUnit))) shares shifts ∧
      m = ((shifts.flatMap Shift.values).map held).sum := by
    have hall := Allotted.map_left_iff.1 hresults
    clear hm hresults hstart hshares
    induction hall with
    | nil => exact ⟨[], rfl, .nil, rfl⟩
    | cons hs _ ih =>
      obtain ⟨s, rfl, hcovers, rfl⟩ := hs
      obtain ⟨shifts, rfl, hall, rfl⟩ := ih
      refine ⟨s :: shifts, rfl, .cons hcovers hall, ?_⟩
      rw [List.flatMap_cons, List.map_append, List.sum_append]
  obtain ⟨shifts, rfl, hcovers, rfl⟩ := hshifts
  exact ⟨shifts, w', rfl, hcovers, hm⟩

end Dispatcher

end Sharding
