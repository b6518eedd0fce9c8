import Sharding.Proofs.Act.Agreeing
import Sharding.Proofs.Act.Giving

/-!
# Actions that correspond

One action may do for some statements what another one does for all of them.
`x.Corresponds w y v pass post` says of `x` in the world `w` and of `y` in the world `v` that `x`
succeeds exactly when `y` succeeds with an answer that passes, and that `post` holds then.

Where `x` fails, nothing is said of why `y` does, nor whether it does: it may have an answer that
does not pass.
-/

namespace Sharding

namespace Act

variable {W V S T α β γ δ : Type} {w : W} {v : V} {x : Act W α} {y : Act V β} {pass : β → Prop}
  {post : α → W → β → V → Prop} {pass' : δ → Prop} {post' : γ → W → δ → V → Prop}

/-- The first action succeeds exactly when the second one has an answer that passes, and `post`
holds then. -/
inductive Corresponds (x : Act W α) (w : W) (y : Act V β) (v : V) (pass : β → Prop)
    (post : α → W → β → V → Prop) : Prop where
  | both {a w' b v'} : x.run w = (.ok a, w') → y.run v = (.ok b, v') → pass b → post a w' b v' →
      Corresponds x w y v pass post
  | neither : x.Gives w (fun _ _ => False) → y.Gives v (fun b _ => ¬ pass b) →
      Corresponds x w y v pass post

/-- Nothing but what the actions do counts. -/
theorem Corresponds.congr {x' : Act W α} {w' : W} {y' : Act V β} {v' : V}
    (h : x'.Corresponds w' y' v' pass post) (hx : x.run w = x'.run w') (hy : y.run v = y'.run v') :
    x.Corresponds w y v pass post := by
  cases h with
  | both hx' hy' hpass hpost => exact .both (hx.trans hx') (hy.trans hy') hpass hpost
  | neither hx' hy' =>
    refine .neither ?_ ?_
    · unfold Gives
      rw [hx]
      exact hx'
    · unfold Gives
      rw [hy]
      exact hy'

/-- Other answers may pass, when nothing but what is known of two successes tells them apart. -/
theorem Corresponds.imp {pass₂ : β → Prop} {post₂ : α → W → β → V → Prop}
    (h : x.Corresponds w y v pass post) (hpass : ∀ b, pass₂ b → pass b)
    (hboth : ∀ a w' b v', pass b → post a w' b v' → pass₂ b ∧ post₂ a w' b v') :
    x.Corresponds w y v pass₂ post₂ := by
  cases h with
  | both hx hy hb hpost =>
    obtain ⟨hb, hpost⟩ := hboth _ _ _ _ hb hpost
    exact .both hx hy hb hpost
  | neither hx hy => exact .neither hx (hy.mono fun b _ hnot hb => hnot (hpass b hb))

theorem Corresponds.mono {post₂ : α → W → β → V → Prop} (h : x.Corresponds w y v pass post)
    (hpost : ∀ a w' b v', post a w' b v' → post₂ a w' b v') : x.Corresponds w y v pass post₂ :=
  h.imp (fun _ hb => hb) fun a w' b v' hb h => ⟨hb, hpost a w' b v' h⟩

/-- What is known when the first action succeeds. -/
theorem Corresponds.of_left (h : x.Corresponds w y v pass post) {a : α} {w' : W}
    (hrun : x.run w = (.ok a, w')) :
    ∃ b v', y.run v = (.ok b, v') ∧ pass b ∧ post a w' b v' := by
  cases h with
  | both hx hy hpass hpost =>
    rw [hx] at hrun
    cases hrun
    exact ⟨_, _, hy, hpass, hpost⟩
  | neither hx hy => exact (hx a w' hrun).elim

/-- What is known when the second action has an answer that passes. -/
theorem Corresponds.of_right (h : x.Corresponds w y v pass post) {b : β} {v' : V}
    (hrun : y.run v = (.ok b, v')) (hb : pass b) :
    ∃ a w', x.run w = (.ok a, w') ∧ post a w' b v' := by
  cases h with
  | both hx hy hpass hpost =>
    rw [hy] at hrun
    cases hrun
    exact ⟨_, _, hx, hpost⟩
  | neither hx hy => exact (hy b v' hrun hb).elim

/-! ## Steps -/

theorem corresponds_pure {a : α} {b : β} (hpass : pass b) (hpost : post a w b v) :
    (pure a : Act W α).Corresponds w (pure b : Act V β) v pass post :=
  .both rfl rfl hpass hpost

theorem Agrees.corresponds (h : x.Agrees w y v post) :
    x.Corresponds w y v (fun _ => True) post := by
  unfold Agrees at h
  rcases hx : x.run w with ⟨reason | a, w'⟩ <;> rcases hy : y.run v with ⟨reason' | b, v'⟩ <;>
    rw [hx, hy] at h
  · refine .neither ?_ ?_
    · intro a u ha
      rw [hx] at ha
      cases ha
    · intro b u hb
      rw [hy] at hb
      cases hb
  · cases h
  · cases h
  · cases h with
    | ok hpost => exact .both hx hy trivial hpost

theorem Corresponds.bind {f : α → Act W γ} {g : β → Act V δ} (h : x.Corresponds w y v pass post)
    (hok : ∀ a w' b v', pass b → post a w' b v' →
      (f a).Corresponds w' (g b) v' pass' post')
    (hrefused : ∀ b v', ¬ pass b → (g b).Gives v' fun d _ => ¬ pass' d) :
    (x >>= f).Corresponds w (y >>= g) v pass' post' := by
  cases h with
  | both hx hy hpass hpost =>
    refine (hok _ _ _ _ hpass hpost).congr ?_ ?_
    · rw [run_bind, hx]
    · rw [run_bind, hy]
  | neither hx hy => exact .neither (hx.bind fun _ _ h => h.elim) (hy.bind hrefused)

/-- What is known of a success of the first action. -/
theorem Agrees.and_gives {known : α → W → Prop} (h : x.Agrees w y v post)
    (hgives : x.Gives w known) :
    x.Agrees w y v fun a w' b v' => post a w' b v' ∧ known a w' := by
  unfold Agrees at h ⊢
  generalize hx : x.run w = r, y.run v = r' at h ⊢
  cases h with
  | ok hpost => exact .ok ⟨hpost, hgives _ _ hx⟩
  | stop => exact .stop

/-- Two sequences whose first parts agree. -/
theorem Agrees.bind_corresponds {f : α → Act W γ} {g : β → Act V δ} (h : x.Agrees w y v post)
    (hrest : ∀ a w' b v', post a w' b v' → (f a).Corresponds w' (g b) v' pass' post') :
    (x >>= f).Corresponds w (y >>= g) v pass' post' :=
  h.corresponds.bind (fun a w' b v' _ hpost => hrest a w' b v' hpost)
    fun _ _ hnot => absurd trivial hnot

/-- Two sequences with the same first part. -/
theorem corresponds_bind_same {post' : γ → W → δ → W → Prop} (x : Act W α) {f : α → Act W γ}
    {g : α → Act W δ} (hrest : ∀ a w', (f a).Corresponds w' (g a) w' pass' post') :
    (x >>= f).Corresponds w (x >>= g) w pass' post' := by
  refine (Agrees.refl x w).bind_corresponds ?_
  rintro a w' _ _ ⟨rfl, rfl⟩
  exact hrest a w'

/-- Two sequences that go on with whatever their first parts answer.  The first one fails when its
first part has failed. -/
theorem Corresponds.bind_attempt {f : Except Error α → Act W γ} {g : Except Error β → Act V δ}
    (h : x.Corresponds w y v pass post)
    (hok : ∀ a w' b v', pass b → post a w' b v' →
      (f (.ok a)).Corresponds w' (g (.ok b)) v' pass' post')
    (hfails : ∀ e w', (f (.error e)).Gives w' fun _ _ => False)
    (hrefused : ∀ reply v', (∀ b, reply = .ok b → ¬ pass b) →
      (g reply).Gives v' fun d _ => ¬ pass' d) :
    (x.attempt >>= f).Corresponds w (y.attempt >>= g) v pass' post' := by
  cases h with
  | both hx hy hpass hpost =>
    refine (hok _ _ _ _ hpass hpost).congr ?_ ?_
    · rw [run_bind, attempt, run_ofRun, hx]
    · rw [run_bind, attempt, run_ofRun, hy]
  | neither hx hy =>
    exact .neither (hx.bind_attempt (fun _ _ h => h.elim) hfails) (hy.attempt.bind hrefused)

/-! ## Steps on a state and a world -/

theorem corresponds_state {p : S × W} {q : T × V} {f : S → Act (S × W) γ} {g : T → Act (T × V) δ}
    {post : γ → S × W → δ → T × V → Prop} (h : (f p.1).Corresponds p (g q.1) q pass' post) :
    (state >>= f).Corresponds p (state >>= g) q pass' post :=
  h.congr rfl rfl

theorem Corresponds.outside {s : S} {t : T} (h : x.Corresponds w y v pass post) :
    x.outside.Corresponds (s, w) y.outside (t, v) pass fun a p b q =>
      p.1 = s ∧ q.1 = t ∧ post a p.2 b q.2 := by
  cases h with
  | @both a w' b v' hx hy hpass hpost =>
    have hx' : x.outside.run (s, w) = (.ok a, s, w') := by
      rw [Act.outside, zoom, run_ofRun, hx]
    have hy' : y.outside.run (t, v) = (.ok b, t, v') := by
      rw [Act.outside, zoom, run_ofRun, hy]
    exact .both hx' hy' hpass ⟨rfl, rfl, hpost⟩
  | neither hx hy => exact .neither hx.outside hy.outside

/-- Calls on one part of a state. -/
theorem Corresponds.within {S' T' : Type} {get : S → S'} {put : S' → S → S} {get' : T → T'}
    {put' : T' → T → T} {x : Act (S' × W) α} {y : Act (T' × V) β} {s : S} {t : T}
    {post : α → S' × W → β → T' × V → Prop}
    (h : x.Corresponds (get s, w) y (get' t, v) pass post) :
    (x.within get put).Corresponds (s, w) (y.within get' put') (t, v) pass fun a p b q =>
      ∃ u u', p = (put u.1 s, u.2) ∧ q = (put' u'.1 t, u'.2) ∧ post a u b u' := by
  cases h with
  | both hx hy hpass hpost =>
    refine .both ?_ ?_ hpass ⟨_, _, rfl, rfl, hpost⟩
    · rw [Act.within, zoom, run_ofRun, hx]
    · rw [Act.within, zoom, run_ofRun, hy]
  | neither hx hy => exact .neither hx.within hy.within

end Act

end Sharding
