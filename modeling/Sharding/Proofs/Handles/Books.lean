import Mathlib.Algebra.Group.Prod
import Mathlib.Algebra.Order.Group.Multiset
import Sharding.Proofs.Act.Yielding
import Sharding.Proofs.Program.Owning
import Sharding.Provider.Basic

/-!
# Books on open handles

`Books` say for every world which statements and which cursors are open in it.  They are `Kept` by a
provider when each of its calls answers, an opening call that succeeds adds the handle that it
answers with, and a close takes the handle away, whatever it answers.

`b.Has m w` says that the open statements of `w` are those of `m`, and that no cursor is open but
those of `m`.
-/

namespace Sharding

/-- The numbers of statements and of cursors. -/
abbrev Handles := Multiset Nat × Multiset Nat

/-- A prepared statement. -/
def Handles.statement (n : Nat) : Handles :=
  ({n}, 0)

/-- The cursor of a source. -/
def Source.handles (s : Source) : Handles :=
  (0, s.handle.toList)

/-- The cursor of an outcome. -/
def Outcome.handles : Outcome → Handles
  | .rows s => s.handles
  | .update _ => 0

/-- Which handles are open in a world. -/
structure Books (W : Type) where
  statements : W → Multiset Nat
  cursors : W → Multiset Nat

namespace Books

variable {W α : Type} {b : Books W} {p : Provider W}

/-- Nothing is opened or closed. -/
def Same (b : Books W) (w w' : W) : Prop :=
  b.statements w' = b.statements w ∧ b.cursors w' = b.cursors w

/-- The action answers.  When it succeeds, what belongs to its answer has been opened, and nothing
has when it fails. -/
def Opens (b : Books W) (x : Act W α) (opened : α → Handles) : Prop :=
  ∀ w, match (x.run w).1 with
    | .ok a => b.statements (x.run w).2 = (opened a).1 + b.statements w ∧
        b.cursors (x.run w).2 = (opened a).2 + b.cursors w
    | .error (.error _) => b.Same w (x.run w).2
    | .error .crash => False

/-- A close takes the cursor away. -/
def Closes (b : Books W) (closer : Closer W) : Prop :=
  ∀ n w, b.statements (closer n w).2 = b.statements w ∧
    b.cursors (closer n w).2 = (b.cursors w).erase n

/-- The calls of a provider answer, and the books follow them. -/
structure Kept (b : Books W) (p : Provider W) : Prop where
  connect : ∀ shard, b.Opens (p.connect shard) fun _ => 0
  prepare : ∀ c sql, b.Opens (p.prepare c sql) Handles.statement
  bind : ∀ n params, b.Opens (p.bind n params) fun _ => 0
  query : ∀ n, b.Opens (p.query n) Source.handles
  update : ∀ n, b.Opens (p.update n) fun _ => 0
  execute : ∀ n, b.Opens (p.execute n) Outcome.handles
  addBatch : ∀ n, b.Opens (p.addBatch n) fun _ => 0
  executeBatch : ∀ n, b.Opens (p.executeBatch n) fun _ => 0
  batchKeys : ∀ n w, b.Same w (p.batchKeys n w).2
  close : ∀ n w, b.statements (p.close n w).2 = (b.statements w).erase n ∧
    b.cursors (p.close n w).2 = b.cursors w
  closeCursor : b.Closes p.closeCursor

/-! ## Actions that open and close nothing -/

/-- The action opens and closes nothing. -/
def Quiet (b : Books W) (x : Act W α) : Prop :=
  ∀ w, b.Same w (x.run w).2

theorem quiet_pure (a : α) : b.Quiet (pure a : Act W α) :=
  fun _ => ⟨rfl, rfl⟩

theorem quiet_fail (e : Error) : b.Quiet (Act.fail e : Act W α) :=
  fun _ => ⟨rfl, rfl⟩

theorem quiet_fail_bind (e : Error) {f : α → Act W β} :
    b.Quiet ((Act.fail e : Act W α) >>= f) :=
  fun _ => ⟨rfl, rfl⟩

theorem quiet_ofExcept (reply : Except Error α) : b.Quiet (Act.ofExcept reply : Act W α) := by
  cases reply with
  | ok a => exact quiet_pure a
  | error e => exact quiet_fail e

theorem Quiet.bind {β : Type} {x : Act W α} {g : α → Act W β} (h : b.Quiet x)
    (hrest : ∀ a, b.Quiet (g a)) : b.Quiet (x >>= g) := by
  intro w
  have hx := h w
  rw [Act.run_bind]
  rcases hrun : x.run w with ⟨stop | a, w'⟩ <;> rw [hrun] at hx
  · exact hx
  · obtain ⟨hstatements, hcursors⟩ := hrest a w'
    exact ⟨hstatements.trans hx.1, hcursors.trans hx.2⟩

theorem quiet_mapM {β : Type} {g : α → Act W β} {xs : List α} (h : ∀ x ∈ xs, b.Quiet (g x)) :
    b.Quiet (xs.mapM g) := by
  induction xs with
  | nil => exact quiet_pure []
  | cons x xs ih =>
    rw [List.mapM_cons]
    refine (h x List.mem_cons_self).bind fun y => ?_
    exact (ih fun x hx => h x (List.mem_cons_of_mem _ hx)).bind fun ys => quiet_pure _

/-! ## What is open at most -/

/-- The statements of `m` are open, and no cursors but those of `m`. -/
def Has (b : Books W) (m : Handles) (w : W) : Prop :=
  b.statements w = m.1 ∧ b.cursors w ≤ m.2

variable {m m' : Handles} {w w' : W}

theorem Has.mono (h : b.Has m w) (hstatements : m.1 = m'.1) (hcursors : m.2 ≤ m'.2) :
    b.Has m' w :=
  ⟨h.1.trans hstatements, h.2.trans hcursors⟩

theorem Has.same (h : b.Has m w) (hsame : b.Same w w') : b.Has m w' :=
  ⟨hsame.1.trans h.1, hsame.2.le.trans h.2⟩

theorem Has.opened {opened : Handles} (h : b.Has m w)
    (hnew : b.statements w' = opened.1 + b.statements w ∧ b.cursors w' = opened.2 + b.cursors w) :
    b.Has (opened + m) w' := by
  refine ⟨?_, ?_⟩
  · rw [hnew.1, h.1]
    rfl
  · rw [hnew.2]
    exact add_le_add_right h.2 opened.2

theorem Quiet.yields {x : Act W α} (hx : b.Quiet x) : x.Yields b.Has 0 fun _ => 0 := by
  intro w f hw
  rw [zero_add] at hw
  refine Act.ends_iff.2 fun reply w' hrun => ?_
  have hsame := hx w
  simp only [Act.attempt, Act.run_ofRun] at hrun
  rcases hrun' : x.run w with ⟨⟨e | _⟩ | a, u⟩ <;> rw [hrun'] at hrun hsame <;> cases hrun
  · exact hw.same hsame
  · rw [Act.Left, zero_add]
    exact hw.same hsame

/-- An opening action yields what it opens. -/
theorem Opens.yields {x : Act W α} {opened : α → Handles} (hx : b.Opens x opened) :
    x.Yields b.Has 0 opened := by
  intro w f hw
  rw [zero_add] at hw
  refine Act.ends_iff.2 fun reply w' hrun => ?_
  have hopens := hx w
  simp only [Act.attempt, Act.run_ofRun] at hrun
  rcases hrun' : x.run w with ⟨⟨e | _⟩ | a, u⟩ <;> rw [hrun'] at hrun hopens <;> cases hrun
  · exact hw.same hopens
  · exact hw.opened hopens

/-- An opening action of a worker. -/
theorem Opens.owns {x : Act W α} {opened : α → Handles} (hx : b.Opens x opened) :
    (Program.ofAct x).Owns b.Has (Program.EndsWith opened) 0 := by
  refine Program.owns_ofAct fun w f hw => ?_
  rw [zero_add] at hw
  have hrun := hx w
  rcases hrun' : x.run w with ⟨⟨e | _⟩ | a, u⟩ <;> rw [hrun'] at hrun
  · exact ⟨0, by rw [zero_add]; exact hw.same hrun, rfl⟩
  · exact hrun.elim
  · exact ⟨opened a, hw.opened hrun, rfl⟩

theorem Has.close {n : Nat} (h : b.Has (Handles.statement n + m) w) (hp : b.Kept p) :
    b.Has m (p.close n w).2 := by
  obtain ⟨hstatements, hcursors⟩ := hp.close n w
  refine ⟨?_, ?_⟩
  · rw [hstatements, h.1]
    exact Multiset.erase_cons_head n m.1
  · rw [hcursors]
    exact h.2.trans (zero_add m.2).le

end Books

end Sharding
