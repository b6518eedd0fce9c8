import Sharding.Proofs.Handles.Execution
import Sharding.Proofs.Program.Finishing
import Sharding.Provider.Fault

/-!
# Exact books

`b.Has m w` bounds what is open from above, which is enough to see that nothing leaks.
`b.Exactly m w` says what is open, so that what leaks can be counted.

The calls of a provider may crash here: a call that `b.OpensOrStops` opens nothing when it fails and
nothing when it crashes.  Faults keep it that way (`Books.opensOrStops_query_withFaults` and
`Books.opensOrStops_execute_withFaults`).
-/

namespace Sharding

variable {W α β : Type} {b : Books W} {p : Provider W}

namespace Books

/-- What belongs to a result has been opened.  Nothing has when there is none. -/
def After (b : Books W) (opened : α → Handles) (w : W) : Except Stop α × W → Prop
  | (.ok a, w') => b.statements w' = (opened a).1 + b.statements w ∧
      b.cursors w' = (opened a).2 + b.cursors w
  | (.error _, w') => b.Same w w'

/-- When the action succeeds, what belongs to its answer has been opened.  Nothing has when it fails
or crashes. -/
def OpensOrStops (b : Books W) (x : Act W α) (opened : α → Handles) : Prop :=
  ∀ w, b.After opened w (x.run w)

variable {x : Act W α} {opened : α → Handles}

theorem Opens.orStops (h : b.Opens x opened) : b.OpensOrStops x opened := by
  intro w
  have hw := h w
  rcases hrun : x.run w with ⟨⟨e | _⟩ | a, w'⟩ <;> rw [hrun] at hw
  · exact hw
  · exact hw.elim
  · exact hw

theorem Same.after {w v : W} {reply : Except Stop α × W} (hsame : b.Same w v)
    (h : b.After opened v reply) : b.After opened w reply := by
  obtain ⟨hstatements, hcursors⟩ := hsame
  rcases reply with ⟨stop | a, w'⟩
  · exact ⟨h.1.trans hstatements, h.2.trans hcursors⟩
  · exact ⟨by rw [h.1, hstatements], by rw [h.2, hcursors]⟩

/-- An answer is changed, and nothing is opened or closed meanwhile. -/
theorem OpensOrStops.bind {opened' : β → Handles} {g : α → Act W β} (h : b.OpensOrStops x opened)
    (hrest : ∀ a w, ∃ a' w', (g a).run w = (.ok a', w') ∧ opened' a' = opened a ∧ b.Same w w') :
    b.OpensOrStops (x >>= g) opened' := by
  intro w
  have hw := h w
  rw [Act.run_bind]
  generalize x.run w = reply at hw ⊢
  rcases reply with ⟨stop | a, v⟩
  · exact hw
  · obtain ⟨a', w', hrun, hopened, hsame⟩ := hrest a v
    dsimp only
    rw [hrun]
    refine ⟨hsame.1.trans ?_, hsame.2.trans ?_⟩
    · rw [hopened]
      exact hw.1
    · rw [hopened]
      exact hw.2

/-! ## What is open -/

/-- The handles of `m` are open, and no others. -/
def Exactly (b : Books W) (m : Handles) (w : W) : Prop :=
  b.statements w = m.1 ∧ b.cursors w = m.2

variable {w w' : W} {m f : Handles}

theorem exactly_self (b : Books W) (w : W) : b.Exactly (b.statements w, b.cursors w) w :=
  ⟨rfl, rfl⟩

/-- A call of a worker that may crash. -/
theorem OpensOrStops.owns (h : b.OpensOrStops x opened) :
    (Program.ofAct x).Owns b.Exactly (Program.Leaves opened) 0 := by
  refine Program.owns_ofAct fun w f hw => ?_
  rw [zero_add] at hw
  have hrun := h w
  generalize x.run w = reply at hrun ⊢
  rcases reply with ⟨stop | a, w'⟩
  · refine ⟨0, ?_, rfl⟩
    rw [zero_add]
    exact ⟨hrun.1.trans hw.1, hrun.2.trans hw.2⟩
  · refine ⟨opened a, ⟨hrun.1.trans ?_, hrun.2.trans ?_⟩, rfl⟩
    · rw [hw.1]
      rfl
    · rw [hw.2]
      rfl

/-- A close takes the cursor of the source away. -/
theorem Exactly.closeSource {closer : Closer W} (hc : b.Closes closer) {s : Source}
    (h : b.Exactly (s.handles + f) w) : b.Exactly f (s.close closer w).2.2 := by
  unfold Source.close
  unfold Source.handles at h
  cases hhandle : s.handle with
  | none =>
    rw [hhandle] at h
    exact ⟨h.1.trans (zero_add f.1), h.2.trans (zero_add f.2)⟩
  | some n =>
    rw [hhandle] at h
    obtain ⟨hstatements, hcursors⟩ := hc n w
    refine ⟨hstatements.trans (h.1.trans (zero_add f.1)), hcursors.trans ?_⟩
    rw [h.2]
    exact Multiset.erase_cons_head n f.2

/-! ## Faults -/

section Faults

variable {part : W → Faults} {put : Faults → W → W} {cancel : W → W} {n : Nat}

theorem OpensOrStops.executing (hcancel : ∀ w, b.Same w (cancel w))
    (h : b.OpensOrStops x opened) :
    b.OpensOrStops (Provider.executing part cancel n x) opened := by
  intro w
  rw [Provider.executing, Act.run_ofRun]
  dsimp only
  generalize hstart : (if (part w).has n .cancel = true then cancel w else w) = start
  have hsame : b.Same w start := by
    rw [← hstart]
    split
    · exact hcancel w
    · exact ⟨rfl, rfl⟩
  by_cases hcrash : (part start).has n .crash = true
  · rw [if_pos hcrash]
    exact hsame
  · rw [if_neg hcrash]
    exact hsame.after (h start)

/-- A source has its cursor also under faults. -/
theorem run_spoiling (part : W → Faults) (hput : ∀ faults w, b.Same w (put faults w)) (n : Nat)
    (source : Source) (w : W) :
    ∃ source' w', (Provider.spoiling part put n source).run w = (.ok source', w') ∧
      source'.handles = source.handles ∧ b.Same w w' := by
  have hspoil : ∀ faults : Faults, (faults.spoil n source).1.handles = source.handles := by
    intro faults
    unfold Faults.spoil
    dsimp only
    split <;> rfl
  exact ⟨_, _, rfl, hspoil (part w), hput _ w⟩

theorem opensOrStops_query_withFaults (hput : ∀ faults w, b.Same w (put faults w))
    (hcancel : ∀ w, b.Same w (cancel w)) (h : b.OpensOrStops (p.query n) Source.handles) :
    b.OpensOrStops ((p.withFaults part put cancel).query n) Source.handles :=
  (h.executing hcancel).bind (run_spoiling part hput n)

theorem opensOrStops_execute_withFaults (hput : ∀ faults w, b.Same w (put faults w))
    (hcancel : ∀ w, b.Same w (cancel w)) (h : b.OpensOrStops (p.execute n) Outcome.handles) :
    b.OpensOrStops ((p.withFaults part put cancel).execute n) Outcome.handles := by
  refine (h.executing hcancel).bind fun outcome w => ?_
  cases outcome with
  | update outcome => exact ⟨_, _, rfl, rfl, rfl, rfl⟩
  | rows source =>
    obtain ⟨source', w', hrun, hhandles, hsame⟩ := run_spoiling part hput n source w
    refine ⟨.rows source', w', ?_, hhandles, hsame⟩
    dsimp only
    rw [Act.run_bind, hrun]
    rfl

/-- Cursors are closed also where the close has a fault. -/
theorem Closes.withFaults (h : b.Closes p.closeCursor) :
    b.Closes (p.withFaults part put cancel).closeCursor := by
  intro n w
  have hworld : ((p.withFaults part put cancel).closeCursor n w).2 = (p.closeCursor n w).2 := by
    unfold Provider.withFaults
    dsimp only
    split <;> rfl
  rw [hworld]
  exact h n w

end Faults

end Books

end Sharding
