import Sharding.Proofs.Act.Replying
import Sharding.Proofs.Results

/-!
# What actions give

`x.Gives w post` says what is known when the action `x` succeeds in the world `w`: then `post` holds
of its value and of the world afterwards.  Of an action that fails it says nothing, so a sequence is
taken apart without a word on what its steps leave behind when they fail.
-/

namespace Sharding

namespace Act

variable {W S α β : Type} {w : W} {s : S} {x : Act W α} {f : α → Act W β}

/-- When the action succeeds, `post` holds of its value and of the world afterwards. -/
def Gives (x : Act W α) (w : W) (post : α → W → Prop) : Prop :=
  ∀ a w', x.run w = (.ok a, w') → post a w'

theorem Ends.gives {post : Except Error α → W → Prop} (h : x.Ends w post) :
    x.Gives w fun a => post (.ok a) := by
  intro a w' hrun
  unfold Ends at h
  rw [hrun] at h
  exact h

theorem Replies.gives {post : Except Error α → W → Prop} (h : x.Replies w post) :
    x.Gives w fun a => post (.ok a) :=
  h.ends.gives

theorem Gives.mono {post post' : α → W → Prop} (h : x.Gives w post)
    (hpost : ∀ a w', post a w' → post' a w') : x.Gives w post' :=
  fun a w' hrun => hpost a w' (h a w' hrun)

/-- An action whose run is known. -/
theorem gives_of_run {a : α} {w' : W} {post : α → W → Prop} (hrun : x.run w = (.ok a, w'))
    (h : post a w') : x.Gives w post := by
  intro b u hb
  rw [hrun] at hb
  cases hb
  exact h

theorem gives_fail (e : Error) {post : α → W → Prop} : (fail e : Act W α).Gives w post := by
  intro a w' hrun
  cases hrun

theorem Gives.bind {mid : α → W → Prop} {post : β → W → Prop} (h : x.Gives w mid)
    (hrest : ∀ a w', mid a w' → (f a).Gives w' post) : (x >>= f).Gives w post := by
  intro b w' hrun
  obtain ⟨a, u, hx, hf⟩ := exists_of_bind_eq_ok hrun
  exact hrest a u (h a u hx) b w' hf

/-- A sequence whose second part does not hang on the first. -/
theorem gives_bind {post : β → W → Prop} (h : ∀ a w', (f a).Gives w' post) :
    (x >>= f).Gives w post := by
  intro b w' hrun
  obtain ⟨a, u, -, hf⟩ := exists_of_bind_eq_ok hrun
  exact h a u b w' hf

theorem gives_bind_of_run {a : α} {w' : W} {post : β → W → Prop} (hrun : x.run w = (.ok a, w'))
    (h : (f a).Gives w' post) : (x >>= f).Gives w post := by
  intro b u hb
  rw [run_bind, hrun] at hb
  exact h b u hb

/-- What is known of a success is known of the answer. -/
theorem Gives.attempt {mid : α → W → Prop} (h : x.Gives w mid) :
    x.attempt.Gives w fun reply w' => ∀ a, reply = .ok a → mid a w' := by
  intro reply w' hrun a hreply
  subst hreply
  refine h a w' ?_
  rw [Act.attempt, run_ofRun] at hrun
  rcases hx : x.run w with ⟨⟨e | _⟩ | a', u⟩ <;> rw [hx] at hrun <;> cases hrun
  rfl

/-- A sequence that handles the answer of its first part, and fails when that has failed. -/
theorem Gives.bind_attempt {mid : α → W → Prop} {post : β → W → Prop}
    {g : Except Error α → Act W β} (h : x.Gives w mid)
    (hok : ∀ a w', mid a w' → (g (.ok a)).Gives w' post)
    (herror : ∀ e w', (g (.error e)).Gives w' post) : (x.attempt >>= g).Gives w post := by
  refine h.attempt.bind fun reply w' hreply => ?_
  cases reply with
  | ok a => exact hok a w' (hreply a rfl)
  | error e => exact herror e w'

/-! ## Steps on a state and a world -/

theorem Gives.outside {post : α → S × W → Prop} (h : x.Gives w fun a w => post a (s, w)) :
    x.outside.Gives (s, w) post := by
  intro a p hrun
  rw [Act.outside, zoom, run_ofRun] at hrun
  rcases hx : x.run w with ⟨reply, w'⟩
  dsimp only at hrun
  rw [hx] at hrun
  cases hrun
  exact h a w' hx

theorem Gives.within {T : Type} {part : S → T} {put : T → S → S} {y : Act (T × W) α}
    {post : α → S × W → Prop} (h : y.Gives (part s, w) fun a q => post a (put q.1 s, q.2)) :
    (y.within part put).Gives (s, w) post := by
  intro a p hrun
  rw [Act.within, zoom, run_ofRun] at hrun
  rcases hy : y.run (part s, w) with ⟨reply, q⟩
  dsimp only at hrun
  rw [hy] at hrun
  cases hrun
  exact h a q hy

end Act

end Sharding
