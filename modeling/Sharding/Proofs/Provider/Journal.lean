import Mathlib.Algebra.Group.Prod
import Mathlib.Algebra.Order.Group.Multiset
import Sharding.Proofs.Act.Replying
import Sharding.Proofs.Merge.Closing
import Sharding.Provider.Basic
import Sharding.Route.Basic

/-!
# Journals of a provider

A `Journal` says for every world which statements are open in it, with what is bound and queued on
each of them, and which statements have been executed with which parameters.  It also says on which
shards and texts no call fails, and which counts executions may report.

`k.Kept p` is what the library relies on when it executes statements: each call of the provider
answers, a call on a statement leaves the others alone, and only the executing calls execute
something, namely what is bound or queued.

`k.Holds m w` says that the statements of `m` are open in the world `w`, and that what has been
executed so far is what `m` says.
-/

namespace Sharding

open Act

/-- A statement that is open, with what is bound and queued on it. -/
structure StatementState where
  shard : String
  sql : String
  params : List Datum := []
  queue : List (List Datum) := []

namespace StatementState

/-- The execution of the statement with some parameters. -/
def execution (s : StatementState) (params : List Datum) : RouteUnit :=
  ⟨s.shard, s.sql, params⟩

/-- The executions that are queued. -/
def queued (s : StatementState) : List RouteUnit :=
  s.queue.map s.execution

end StatementState

/-- What is known of worlds with statements in them. -/
structure Journal (W : Type) where
  /-- The worlds that are known of. -/
  sound : W → Prop
  /-- The open statement with a number. -/
  state? : W → Nat → Option StatementState
  executed : W → Multiset RouteUnit
  /-- Nothing fails on this shard for this text. -/
  serves : (shard sql : String) → Prop
  /-- Executions may report these counts, one for each, be it alone or in one batch. -/
  reports : List RouteUnit → List UInt64 → Prop

namespace Journal

variable {W α : Type} {k : Journal W} {p : Provider W} {w w' : W}

/-- Only the statement with a number may differ, and `ran` has been executed. -/
structure Touches (k : Journal W) (n : Nat) (ran : Multiset RouteUnit) (w w' : W) : Prop where
  sound : k.sound w'
  others : ∀ i, i ≠ n → k.state? w' i = k.state? w i
  executed : k.executed w' = ran + k.executed w

/-- No statement differs, and nothing has been executed. -/
structure Same (k : Journal W) (w w' : W) : Prop where
  sound : k.sound w'
  states : k.state? w' = k.state? w
  executed : k.executed w' = k.executed w

/-- What a call on an open statement does: when it succeeds, `ran` has been executed, and `after`
relates the statement before the call, the answer, and what is open under its number then. -/
def Calls (k : Journal W) (n : Nat) (x : Act W α) (ran : StatementState → Multiset RouteUnit)
    (after : StatementState → α → Option StatementState → Prop) : Prop :=
  ∀ w s, k.sound w → k.state? w n = some s → x.Replies w fun reply w' =>
    match reply with
    | .ok a => k.Touches n (ran s) w w' ∧ after s a (k.state? w' n)
    | .error _ => (∃ ran, k.Touches n ran w w') ∧ ¬ k.serves s.shard s.sql

/-- The calls of a provider answer, and the journal follows them. -/
structure Kept (k : Journal W) (p : Provider W) : Prop where
  connect : ∀ shard w, k.sound w → (p.connect shard).Replies w fun reply w' =>
    k.Same w w' ∧
      match reply with
      | .ok c => c.shard = shard
      | .error _ => ∀ sql, ¬ k.serves shard sql
  prepare : ∀ c sql w, k.sound w → (p.prepare c sql).Replies w fun reply w' =>
    match reply with
    | .ok n => k.Touches n 0 w w' ∧ k.state? w n = none ∧
        k.state? w' n = some { shard := c.shard, sql }
    | .error _ => k.Same w w' ∧ ¬ k.serves c.shard sql
  bind : ∀ n params, k.Calls n (p.bind n params) (fun _ => 0) fun s _ s' =>
    s' = some { s with params }
  update : ∀ n, k.Calls n (p.update n) (fun s => {s.execution s.params}) fun s outcome _ =>
    k.reports [s.execution s.params] [outcome.affected]
  execute : ∀ n, k.Calls n (p.execute n) (fun s => {s.execution s.params}) fun _ _ _ => True
  addBatch : ∀ n, k.Calls n (p.addBatch n) (fun _ => 0) fun s _ s' =>
    ∃ params, s' = some { s with params, queue := s.queue ++ [s.params] }
  executeBatch : ∀ n, k.Calls n (p.executeBatch n) (fun s => ↑s.queued) fun s counts s' =>
    k.reports s.queued counts ∧ s' ≠ none
  batchKeys : ∀ n w, k.sound w → k.Touches n 0 w (p.batchKeys n w).2
  close : ∀ n w, k.sound w → k.Touches n 0 w (p.close n w).2
  closeCursor : ∀ n w, k.sound w → k.Same w (p.closeCursor n w).2

/-! ## Owned statements -/

/-- Open statements by their numbers, and executions. -/
abbrev Part := Multiset (Nat × StatementState) × Multiset RouteUnit

/-- What is open under a number, as a part of the world. -/
def opened (n : Nat) (s : Option StatementState) : Multiset (Nat × StatementState) :=
  s.toList.map (n, ·)

@[simp] theorem opened_some (n : Nat) (s : StatementState) : opened n (some s) = {(n, s)} := rfl

/-- The statements of `m` are open and different from each other, and its executions are what has
been executed. -/
structure Holds (k : Journal W) (m : Part) (w : W) : Prop where
  sound : k.sound w
  distinct : (m.1.map Prod.fst).Nodup
  isOpen : ∀ o ∈ m.1, k.state? w o.1 = some o.2
  executed : k.executed w = m.2

variable {m f : Part} {n : Nat} {s : StatementState} {ran : Multiset RouteUnit}

theorem holds_start (h : k.sound w) : k.Holds (0, k.executed w) w :=
  ⟨h, Multiset.nodup_zero, fun o ho => absurd ho (Multiset.notMem_zero o), rfl⟩

theorem Holds.same (h : k.Holds m w) (hsame : k.Same w w') : k.Holds m w' where
  sound := hsame.sound
  distinct := h.distinct
  isOpen o ho := by
    rw [hsame.states]
    exact h.isOpen o ho
  executed := hsame.executed.trans h.executed

/-- Closing cursors leaves everything as it is. -/
theorem Kept.keeps_closeCursor (hk : k.Kept p) (m : Part) : p.closeCursor.Keeps (k.Holds m) :=
  fun n w hw => hw.same (hk.closeCursor n w hw.sound)

/-- A statement that nobody owns may do anything. -/
theorem Holds.touched_other (h : k.Holds f w) (ht : k.Touches n ran w w')
    (hn : n ∉ f.1.map Prod.fst) : k.Holds ((0, ran) + f) w' where
  sound := ht.sound
  distinct := by
    show ((0 + f.1).map Prod.fst).Nodup
    rw [zero_add]
    exact h.distinct
  isOpen o ho := by
    replace ho : o ∈ 0 + f.1 := ho
    rw [zero_add] at ho
    rw [ht.others o.1 fun heq => hn (heq ▸ Multiset.mem_map_of_mem _ ho)]
    exact h.isOpen o ho
  executed := by
    rw [ht.executed, h.executed]
    rfl

/-- What is open under a number that nobody owns can be taken over. -/
theorem Holds.take (h : k.Holds f w) (hn : n ∉ f.1.map Prod.fst) :
    k.Holds ((opened n (k.state? w n), 0) + f) w := by
  cases hs : k.state? w n with
  | none =>
    show k.Holds (0 + f) w
    rw [zero_add]
    exact h
  | some s =>
    refine ⟨h.sound, ?_, fun o ho => ?_, ?_⟩
    · show (({(n, s)} + f.1).map Prod.fst).Nodup
      rw [Multiset.map_add, Multiset.map_singleton, Multiset.singleton_add, Multiset.nodup_cons]
      exact ⟨hn, h.distinct⟩
    · replace ho : o ∈ {(n, s)} + f.1 := ho
      rw [Multiset.mem_add, Multiset.mem_singleton] at ho
      cases ho with
      | inl ho =>
        subst ho
        exact hs
      | inr ho => exact h.isOpen o ho
    · rw [h.executed]
      exact (zero_add f.2).symm

/-- The owner of a statement may forget it. -/
theorem Holds.forget (h : k.Holds (({(n, s)}, ran) + f) w) :
    k.Holds ((0, ran) + f) w ∧ n ∉ ((0, ran) + f : Part).1.map Prod.fst := by
  have hopen : (({(n, s)}, ran) + f : Part).1 = (n, s) ::ₘ f.1 := Multiset.singleton_add _ _
  have hnone : ((0, ran) + f : Part).1 = f.1 := zero_add f.1
  have hdistinct := h.distinct
  rw [hopen, Multiset.map_cons, Multiset.nodup_cons] at hdistinct
  rw [hnone]
  refine ⟨⟨h.sound, ?_, fun o ho => h.isOpen o ?_, h.executed⟩, hdistinct.1⟩
  · rw [hnone]
    exact hdistinct.2
  · rw [hnone] at ho
    rw [hopen]
    exact Multiset.mem_cons_of_mem ho

/-- The owner of a statement may change it and execute it. -/
theorem Holds.touched (h : k.Holds (({(n, s)}, 0) + f) w) (ht : k.Touches n ran w w') :
    k.Holds ((opened n (k.state? w' n), ran) + f) w' := by
  obtain ⟨hf, hn⟩ := h.forget
  replace hf : k.Holds (0 + f) w := hf
  replace hn : n ∉ (0 + f : Part).1.map Prod.fst := hn
  rw [zero_add] at hf hn
  have hothers := hf.touched_other ht hn
  have hn' : n ∉ ((0, ran) + f : Part).1.map Prod.fst := by
    rw [show ((0, ran) + f : Part).1 = f.1 from zero_add f.1]
    exact hn
  have htaken := hothers.take hn'
  rw [← add_assoc] at htaken
  rwa [show ((opened n (k.state? w' n), 0) + (0, ran) : Part) = (opened n (k.state? w' n), ran) from
    Prod.ext (add_zero _) (zero_add _)] at htaken

/-- A call on a statement that its caller owns. -/
theorem Calls.owns {x : Act W α} {ran : StatementState → Multiset RouteUnit}
    {after : StatementState → α → Option StatementState → Prop} (h : k.Calls n x ran after) :
    x.Owns k.Holds ({(n, s)}, 0) fun reply m =>
      match reply with
      | .ok a => ∃ s', after s a s' ∧ m = (opened n s', ran s)
      | .error _ => ¬ k.serves s.shard s.sql := by
  intro w f hw
  have hs : k.state? w n = some s := hw.isOpen (n, s) (Multiset.mem_add.2
    (.inl (Multiset.mem_singleton_self _)))
  refine (h w s hw.sound hs).mono fun reply w' hreply => ?_
  cases reply with
  | ok a => exact ⟨_, hw.touched hreply.1, _, hreply.2, rfl⟩
  | error e =>
    obtain ⟨⟨ran, ht⟩, hserves⟩ := hreply
    exact ⟨_, hw.touched ht, hserves⟩

end Journal

end Sharding
