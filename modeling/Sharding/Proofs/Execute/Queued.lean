import Mathlib.Data.UInt
import Mathlib.Algebra.BigOperators.Group.List.Basic
import Sharding.Execute.Batch
import Sharding.Proofs.Distinct

/-!
# Queued calls

What a batch holds after any number of calls is laid down by what the calls contribute, unit by
unit: `addAll_eq` says that each shard and SQL text has one batch unit, in the order of their
first occurrence, and that it has what was contributed to it, in the order of the calls.
`BatchExecutor.Collects` says the same in the parts of a batch (`collects_addAll`).

When the counts go back to the calls, each of them is credited once: `credit_eq` says that a call
has the sum of the counts of its own units, wherever these ended up.
-/

namespace Sharding

variable {cs : List (RouteUnit × Nat)} {units : List BatchUnit} {affected : RouteUnit → UInt64}

/-- What a batch unit collects: statements of one shard and text. -/
def RouteUnit.kind (u : RouteUnit) : String × String :=
  (u.shard, u.sql)

namespace BatchUnit

def kind (b : BatchUnit) : String × String :=
  (b.shard, b.sql)

/-- The executions that a batch unit stands for, each with its call. -/
def contributions (b : BatchUnit) : List (RouteUnit × Nat) :=
  b.entries.map fun e => (⟨b.shard, b.sql, e.params⟩, e.call)

theorem accepts_eq (b : BatchUnit) (u : RouteUnit) : b.accepts u = (u.kind == b.kind) := by
  rw [Bool.eq_iff_iff]
  simp only [accepts, RouteUnit.kind, kind, Bool.and_eq_true, beq_iff_eq, Prod.mk.injEq]
  exact and_congr eq_comm eq_comm

end BatchUnit

/-! ## Collapsing -/

/-- The batch unit of a kind. -/
def unitOf (cs : List (RouteUnit × Nat)) (kind : String × String) : BatchUnit where
  shard := kind.1
  sql := kind.2
  entries := (cs.filter (·.1.kind == kind)).map fun c => ⟨c.1.params, c.2⟩

/-- The batch units of some contributions. -/
def collapse (cs : List (RouteUnit × Nat)) : List BatchUnit :=
  (distinct (cs.map (·.1.kind))).map (unitOf cs)

theorem kind_unitOf (cs : List (RouteUnit × Nat)) (kind : String × String) :
    (unitOf cs kind).kind = kind := rfl

theorem unitOf_concat_self (cs : List (RouteUnit × Nat)) (u : RouteUnit) (call : Nat) :
    unitOf (cs ++ [(u, call)]) u.kind =
      { unitOf cs u.kind with entries := (unitOf cs u.kind).entries ++ [⟨u.params, call⟩] } := by
  simp [unitOf]

theorem unitOf_concat_of_ne {u : RouteUnit} {kind : String × String} (h : u.kind ≠ kind)
    (call : Nat) : unitOf (cs ++ [(u, call)]) kind = unitOf cs kind := by
  simp [unitOf, h]

theorem addToBatch_map_unitOf (call : Nat) (u : RouteUnit) {kinds : List (String × String)}
    (hkinds : kinds.Nodup) :
    addToBatch call (kinds.map (unitOf cs)) u =
      if u.kind ∈ kinds then kinds.map (unitOf (cs ++ [(u, call)]))
      else kinds.map (unitOf cs) ++ [⟨u.shard, u.sql, [⟨u.params, call⟩]⟩] := by
  induction kinds with
  | nil => rfl
  | cons kind kinds ih =>
    obtain ⟨hkind, hkinds⟩ := List.nodup_cons.1 hkinds
    rw [List.map_cons, addToBatch, BatchUnit.accepts_eq, kind_unitOf]
    by_cases hu : u.kind = kind
    · have hrest : kinds.map (unitOf (cs ++ [(u, call)])) = kinds.map (unitOf cs) :=
        List.map_congr_left fun other hother =>
          unitOf_concat_of_ne (fun heq => hkind (hu ▸ heq ▸ hother)) call
      subst hu
      rw [if_pos (beq_self_eq_true _), if_pos List.mem_cons_self, List.map_cons, hrest,
        unitOf_concat_self]
    · rw [if_neg (mt eq_of_beq hu), ih hkinds]
      by_cases hmem : u.kind ∈ kinds
      · rw [if_pos hmem, if_pos (List.mem_cons_of_mem _ hmem), List.map_cons,
          unitOf_concat_of_ne hu]
      · rw [if_neg hmem, if_neg (List.not_mem_cons_of_ne_of_not_mem hu hmem), List.cons_append]

/-- A unit of a call goes where the others of its kind are. -/
theorem addToBatch_collapse (call : Nat) (cs : List (RouteUnit × Nat)) (u : RouteUnit) :
    addToBatch call (collapse cs) u = collapse (cs ++ [(u, call)]) := by
  rw [collapse, collapse, addToBatch_map_unitOf call u (nodup_distinct _), List.map_append,
    List.map_singleton, distinct_concat]
  by_cases hu : u.kind ∈ distinct (cs.map (·.1.kind))
  · rw [if_pos hu, if_pos hu]
  · have hnew : unitOf cs u.kind = ⟨u.shard, u.sql, []⟩ := by
      have hnone : cs.filter (·.1.kind == u.kind) = [] := by
        refine List.filter_eq_nil_iff.2 fun c hc heq => hu (mem_distinct.2 ?_)
        exact List.mem_map.2 ⟨c, hc, eq_of_beq heq⟩
      rw [unitOf, hnone]
      rfl
    have hrest : (distinct (cs.map (·.1.kind))).map (unitOf (cs ++ [(u, call)])) =
        (distinct (cs.map (·.1.kind))).map (unitOf cs) :=
      List.map_congr_left fun kind hkind =>
        unitOf_concat_of_ne (fun heq => hu (heq ▸ hkind)) call
    rw [if_neg hu, if_neg hu, List.map_append, hrest, List.map_singleton, unitOf_concat_self, hnew]
    rfl

theorem foldl_addToBatch (call : Nat) (cs : List (RouteUnit × Nat)) (us : List RouteUnit) :
    us.foldl (addToBatch call) (collapse cs) = collapse (cs ++ us.map (·, call)) := by
  induction us generalizing cs with
  | nil => rw [List.map_nil, List.append_nil]; rfl
  | cons u us ih =>
    rw [List.foldl_cons, addToBatch_collapse, ih, List.map_cons, List.append_assoc]
    rfl

theorem contributions_unitOf (cs : List (RouteUnit × Nat)) (kind : String × String) :
    (unitOf cs kind).contributions = cs.filter (·.1.kind == kind) := by
  rw [BatchUnit.contributions, unitOf, List.map_map]
  refine (List.map_congr_left fun c hc => ?_).trans (List.map_id _)
  have hkind := eq_of_beq (List.mem_filter.1 hc).2
  rw [← hkind]
  rfl

theorem map_kind_collapse (cs : List (RouteUnit × Nat)) :
    (collapse cs).map BatchUnit.kind = distinct (cs.map (·.1.kind)) := by
  rw [collapse, List.map_map]
  exact List.map_id _

/-- A batch unit is there for something that was contributed. -/
theorem exists_of_mem_collapse {b : BatchUnit} (hb : b ∈ collapse cs) :
    ∃ c ∈ cs, c.1.kind = b.kind := by
  obtain ⟨kind, hkind, rfl⟩ := List.mem_map.1 hb
  exact List.mem_map.1 (mem_distinct.1 hkind)

/-- Each contribution is in the batch once. -/
theorem perm_contributions_collapse (cs : List (RouteUnit × Nat)) :
    ((collapse cs).flatMap BatchUnit.contributions).Perm cs := by
  rw [collapse, List.flatMap_map, List.flatMap_congr fun kind _ => contributions_unitOf cs kind]
  exact perm_flatMap_distinct (fun c : RouteUnit × Nat => c.1.kind) cs

theorem contributions_of_mem_collapse {b : BatchUnit} (hb : b ∈ collapse cs) :
    b.contributions = cs.filter (b.accepts ·.1) := by
  obtain ⟨kind, -, rfl⟩ := List.mem_map.1 hb
  rw [contributions_unitOf]
  refine List.filter_congr fun c _ => ?_
  rw [BatchUnit.accepts_eq]
  rfl

namespace BatchExecutor

/-! ## Calls in a row -/

/-- A logical call: its units, and the keys of its rows. -/
abbrev QueuedCall := List RouteUnit × Option KeyInfo

/-- Queues calls one after the other. -/
def addAll (x : BatchExecutor) (calls : List QueuedCall) : BatchExecutor :=
  calls.foldl (fun x c => (x.add c.1 c.2).2) x

/-- The units of some calls, each with the number of its call, of which `first` is the first. -/
def contributionsFrom (first : Nat) (calls : List QueuedCall) : List (RouteUnit × Nat) :=
  (calls.zipIdx first).flatMap fun (c, i) => c.1.map (·, i)

theorem contributionsFrom_cons (first : Nat) (c : QueuedCall) (calls : List QueuedCall) :
    contributionsFrom first (c :: calls) =
      c.1.map (·, first) ++ contributionsFrom (first + 1) calls := by
  rw [contributionsFrom, List.zipIdx_cons, List.flatMap_cons]
  rfl

theorem map_fst_contributionsFrom (first : Nat) (calls : List QueuedCall) :
    (contributionsFrom first calls).map (·.1) = calls.flatMap (·.1) := by
  induction calls generalizing first with
  | nil => rfl
  | cons c calls ih =>
    rw [contributionsFrom_cons, List.map_append, ih, List.map_map, List.flatMap_cons]
    exact congrArg (· ++ _) (List.map_id _)

/-- What a batch holds after some calls. -/
theorem addAll_eq {x : BatchExecutor} (hx : x.units = collapse cs) (calls : List QueuedCall) :
    x.addAll calls = { x with
      units := collapse (cs ++ contributionsFrom x.calls calls)
      calls := x.calls + calls.length
      keyInfos := x.keyInfos ++ calls.flatMap (·.2.toList) } := by
  induction calls generalizing x cs with
  | nil =>
    rw [contributionsFrom, List.zipIdx_nil, List.flatMap_nil, List.flatMap_nil, List.append_nil,
      List.append_nil, ← hx]
    rfl
  | cons c calls ih =>
    have hfirst : ((x.add c.1 c.2).2).units = collapse (cs ++ c.1.map (·, x.calls)) := by
      rw [← foldl_addToBatch, ← hx]
      rfl
    have hrest := ih hfirst
    rw [List.append_assoc, show ((x.add c.1 c.2).2).calls = x.calls + 1 from rfl,
      ← contributionsFrom_cons] at hrest
    rw [addAll, List.foldl_cons]
    refine hrest.trans ?_
    simp [add, Nat.add_comm, Nat.add_left_comm]

/-- What a batch holds when some calls, and no others, have been queued. -/
structure Collects (x : BatchExecutor) (calls : List QueuedCall) : Prop where
  /-- The units of all calls, each with the number of its call, are collapsed. -/
  units : x.units = collapse (contributionsFrom 0 calls)
  /-- One batch unit for each shard and text, in the order of their first occurrence. -/
  kinds : x.units.map BatchUnit.kind = distinct (calls.flatMap fun c => c.1.map RouteUnit.kind)
  /-- The parameters of all units of that shard and text, in the order of the calls, each under the
  number of its call. -/
  entries : ∀ b ∈ x.units, b.entries =
    calls.zipIdx.flatMap fun (c, i) => (c.1.filter b.accepts).map fun u => ⟨u.params, i⟩
  count : x.calls = calls.length
  keyInfos : x.keyInfos = calls.flatMap (·.2.toList)
  /-- Nothing of it has been executed. -/
  unexecuted : x.nativeKeys = [] ∧ x.groups = []

/-- The parameters of a batch unit, read off the calls. -/
theorem entries_of_mem_collapse {calls : List QueuedCall} {b : BatchUnit}
    (hb : b ∈ collapse (contributionsFrom 0 calls)) : b.entries =
      calls.zipIdx.flatMap fun (c, i) => (c.1.filter b.accepts).map fun u => ⟨u.params, i⟩ := by
  have hentries : b.entries = b.contributions.map fun c => ⟨c.1.params, c.2⟩ := by
    rw [BatchUnit.contributions, List.map_map]
    exact (List.map_id _).symm
  rw [hentries, contributions_of_mem_collapse hb, contributionsFrom, List.filter_flatMap,
    List.map_flatMap]
  refine List.flatMap_congr fun c _ => ?_
  rw [List.filter_map, List.map_map]
  rfl

/-- A batch to which calls are queued collects them. -/
theorem collects_addAll (calls : List QueuedCall) : (addAll {} calls).Collects calls := by
  have hempty : ({} : BatchExecutor).units = collapse [] := rfl
  have hadded := addAll_eq hempty calls
  rw [List.nil_append, List.nil_append, Nat.zero_add] at hadded
  have hunits : (addAll {} calls).units = collapse (contributionsFrom 0 calls) :=
    congrArg units hadded
  refine ⟨hunits, ?_, fun b hb => ?_, congrArg BatchExecutor.calls hadded,
    congrArg BatchExecutor.keyInfos hadded, congrArg nativeKeys hadded, congrArg groups hadded⟩
  · rw [hunits, map_kind_collapse, ← List.map_flatMap, ← map_fst_contributionsFrom 0 calls,
      List.map_map]
    rfl
  · rw [hunits] at hb
    exact entries_of_mem_collapse hb

/-- A call has what it contributed. -/
theorem filter_contributionsFrom (first i : Nat) (calls : List QueuedCall) :
    ((contributionsFrom first calls).filter (·.2 == first + i)).map (·.1) =
      (calls[i]?.map (·.1)).getD [] := by
  induction calls generalizing first i with
  | nil => rfl
  | cons c calls ih =>
    rw [contributionsFrom_cons, List.filter_append, List.map_append]
    have hlater : ∀ d ∈ contributionsFrom (first + 1) calls, first + 1 ≤ d.2 := by
      intro d hd
      obtain ⟨⟨c', j⟩, hmem, hd⟩ := List.mem_flatMap.1 hd
      obtain ⟨u, -, rfl⟩ := List.mem_map.1 hd
      exact (List.mem_zipIdx hmem).1
    cases i with
    | zero =>
      have hnone : (contributionsFrom (first + 1) calls).filter (·.2 == first + 0) = [] := by
        refine List.filter_eq_nil_iff.2 fun d hd heq => ?_
        have hle := hlater d hd
        rw [eq_of_beq heq] at hle
        omega
      have hall : (c.1.map (·, first)).filter (·.2 == first + 0) = c.1.map (·, first) :=
        List.filter_eq_self.2 fun d hd => by
          obtain ⟨u, -, rfl⟩ := List.mem_map.1 hd
          exact beq_self_eq_true first
      rw [hnone, hall, List.map_nil, List.append_nil, List.map_map]
      exact List.map_id _
    | succ i =>
      have hnone : (c.1.map (·, first)).filter (·.2 == first + (i + 1)) = [] := by
        refine List.filter_eq_nil_iff.2 fun d hd heq => ?_
        obtain ⟨u, -, rfl⟩ := List.mem_map.1 hd
        have hfirst := eq_of_beq heq
        dsimp only at hfirst
        omega
      rw [hnone, List.map_nil, List.nil_append, show first + (i + 1) = first + 1 + i by omega, ih]
      rfl

/-! ## Crediting -/

/-- Credits a count to a call. -/
def bump (totals : List UInt64) (c : Nat × UInt64) : List UInt64 :=
  totals.modify c.1 (· + c.2)

/-- What a call is credited, in which order ever. -/
theorem getElem?_foldl_bump (cs : List (Nat × UInt64)) (totals : List UInt64) (i : Nat) :
    (cs.foldl bump totals)[i]? =
      totals[i]?.map (· + ((cs.filter (·.1 == i)).map (·.2)).sum) := by
  induction cs generalizing totals with
  | nil => simp
  | cons c cs ih =>
    rw [List.foldl_cons, ih, bump, List.getElem?_modify, List.filter_cons]
    by_cases hc : c.1 = i
    · rw [if_pos (beq_iff_eq.2 hc), List.map_cons, List.sum_cons]
      cases totals[i]? with
      | none => rfl
      | some total =>
        show some ((if c.1 = i then total + c.2 else total) + _) = some _
        rw [if_pos hc, UInt64.add_assoc]
    · rw [if_neg (mt beq_iff_eq.1 hc)]
      cases totals[i]? with
      | none => rfl
      | some total =>
        show some ((if c.1 = i then total + c.2 else total) + _) = some _
        rw [if_neg hc]

theorem creditCounts_eq (totals : List UInt64) (b : BatchUnit) :
    creditCounts true totals b.entries (b.contributions.map fun c => affected c.1) =
      (b.contributions.map fun c => (c.2, affected c.1)).foldl bump totals := by
  unfold creditCounts BatchUnit.contributions
  rw [List.map_map, List.map_map]
  induction b.entries generalizing totals with
  | nil => rfl
  | cons e entries ih => exact ih _

theorem credit_eq (totals : List UInt64) {units : List BatchUnit}
    {results : List (List UInt64 × List Datum)}
    (h : List.Forall₂ (fun b r => r.1 = b.contributions.map fun c => affected c.1) units results) :
    (credit true totals (units.zip results)).1 =
      .ok (((units.flatMap BatchUnit.contributions).map fun c => (c.2, affected c.1)).foldl bump
        totals) := by
  induction h generalizing totals with
  | nil => rfl
  | @cons b r units results hb _ ih =>
    obtain ⟨counts, keys⟩ := r
    dsimp only at hb
    subst hb
    rw [List.zip_cons_cons, credit, if_pos (by simp [BatchUnit.contributions]), ih,
      creditCounts_eq, List.flatMap_cons, List.map_append, List.foldl_append]

/-- Each call is credited the counts of its own units. -/
theorem foldl_bump_calls {calls : List QueuedCall}
    (hcs : cs.Perm (contributionsFrom 0 calls)) :
    (cs.map fun c => (c.2, affected c.1)).foldl bump (List.replicate calls.length 0) =
      calls.map fun c => (c.1.map affected).sum := by
  refine List.ext_getElem? fun i => ?_
  have hcall := filter_contributionsFrom 0 i calls
  rw [Nat.zero_add] at hcall
  have hsum : (((cs.map fun c => (c.2, affected c.1)).filter (·.1 == i)).map (·.2)).sum =
      (((calls[i]?.map (·.1)).getD []).map affected).sum := by
    rw [List.filter_map, List.map_map, ← hcall, List.map_map]
    exact ((hcs.filter _).map _).sum_eq
  rw [getElem?_foldl_bump, hsum, List.getElem?_map, List.getElem?_replicate]
  by_cases hi : i < calls.length
  · rw [if_pos hi, List.getElem?_eq_getElem hi]
    exact congrArg some (UInt64.zero_add _)
  · rw [if_neg hi, List.getElem?_eq_none (Nat.le_of_not_lt hi)]
    rfl

end BatchExecutor

end Sharding
