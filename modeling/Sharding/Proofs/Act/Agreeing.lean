import Sharding.Proofs.Act.Ending

/-!
# Actions that agree

Two actions agree when both succeed or both stop for the same reason.  `x.Agrees w y v post` says so
of `x` in the world `w` and of `y` in the world `v`; where both succeed, `post` holds of what they
answer and of the worlds afterwards.

Nothing is said of the worlds in which actions stopped.  So two calls agree also when they leave
different things behind on a failure, as long as what they do about it cannot fail itself.
-/

namespace Sharding

namespace Act

variable {W V S T α β γ δ : Type} {w : W} {v : V} {x : Act W α} {y : Act V β}
  {post : α → W → β → V → Prop}

/-- Two outcomes are both a success of which `post` holds, or both the same stop. -/
inductive Alike (post : α → W → β → V → Prop) : Except Stop α × W → Except Stop β × V → Prop
  | ok {a w b v} : post a w b v → Alike post (.ok a, w) (.ok b, v)
  | stop {reason w v} : Alike post (.error reason, w) (.error reason, v)

/-- Both actions succeed, and `post` holds then, or both stop for the same reason. -/
def Agrees (x : Act W α) (w : W) (y : Act V β) (v : V) (post : α → W → β → V → Prop) : Prop :=
  Alike post (x.run w) (y.run v)

/-- Actions whose results look alike agree. -/
theorem agrees_of_result {view : α → γ} {view' : β → γ}
    (h : (x.run w).1.map view = (y.run v).1.map view') :
    x.Agrees w y v fun a _ b _ => view a = view' b := by
  unfold Agrees
  rcases hx : x.run w with ⟨reason | a, w'⟩ <;> rcases hy : y.run v with ⟨reason' | b, v'⟩ <;>
    rw [hx, hy] at h
  · cases h
    exact .stop
  · cases h
  · cases h
  · exact .ok (Except.ok.inj h)

/-- Actions agree on their answers when they have the same result, and only then. -/
theorem agrees_iff_result {x : Act W α} {y : Act V α} :
    x.Agrees w y v (fun a _ b _ => a = b) ↔ (x.run w).1 = (y.run v).1 := by
  constructor
  · intro h
    unfold Agrees at h
    generalize x.run w = r, y.run v = r' at h
    cases h with
    | ok h => exact congrArg Except.ok h
    | stop => rfl
  · intro h
    have hmap : (x.run w).1.map id = (y.run v).1.map id := congrArg (Except.map id) h
    exact agrees_of_result hmap

theorem Agrees.mono {post' : α → W → β → V → Prop} (h : x.Agrees w y v post)
    (hpost : ∀ a w' b v', post a w' b v' → post' a w' b v') : x.Agrees w y v post' := by
  unfold Agrees at h ⊢
  generalize x.run w = r, y.run v = r' at h ⊢
  cases h with
  | ok h => exact .ok (hpost _ _ _ _ h)
  | stop => exact .stop

theorem Agrees.refl (x : Act W α) (w : W) :
    x.Agrees w x w fun a w' b v' => a = b ∧ w' = v' := by
  unfold Agrees
  obtain ⟨_ | _, w'⟩ := x.run w
  · exact .stop
  · exact .ok ⟨rfl, rfl⟩

/-- Two actions agree when both agree with a third one. -/
theorem Agrees.join {U : Type} {z : Act U γ} {u : U} {post' : γ → U → β → V → Prop}
    (h : x.Agrees w y v post) (h' : z.Agrees u y v post') :
    x.Agrees w z u fun a w' c u' => ∃ b v', post a w' b v' ∧ post' c u' b v' := by
  unfold Agrees at h h' ⊢
  generalize x.run w = r, y.run v = r', z.run u = r'' at h h' ⊢
  cases h with
  | ok h =>
    cases h' with
    | ok h' => exact .ok ⟨_, _, h, h'⟩
  | stop =>
    cases h' with
    | stop => exact .stop

/-- What is known of the end of the second action. -/
theorem Agrees.and_ends {known : Except Error β → V → Prop} (h : x.Agrees w y v post)
    (hends : y.Ends v known) :
    x.Agrees w y v fun a w' b v' => post a w' b v' ∧ known (.ok b) v' := by
  unfold Agrees Ends at *
  generalize x.run w = r, y.run v = r' at h hends ⊢
  cases h with
  | ok h => exact .ok ⟨h, hends⟩
  | stop => exact .stop

/-! ## Steps -/

theorem agrees_pure {a : α} {b : β} (h : post a w b v) :
    (pure a : Act W α).Agrees w (pure b : Act V β) v post :=
  .ok h

theorem agrees_fail (e : Error) : (fail e : Act W α).Agrees w (fail e : Act V β) v post :=
  .stop

theorem agrees_ofExcept (reply : Except Error α) :
    (ofExcept reply : Act W α).Agrees w (ofExcept reply : Act V α) v fun a w' b v' =>
      a = b ∧ w' = w ∧ v' = v := by
  cases reply with
  | ok a => exact agrees_pure ⟨rfl, rfl, rfl⟩
  | error e => exact agrees_fail e

theorem Agrees.bind {f : α → Act W γ} {g : β → Act V δ} {post' : γ → W → δ → V → Prop}
    (h : x.Agrees w y v post) (hrest : ∀ a w' b v', post a w' b v' →
      (f a).Agrees w' (g b) v' post') : (x >>= f).Agrees w (y >>= g) v post' := by
  unfold Agrees at h ⊢
  rw [run_bind, run_bind]
  generalize x.run w = r, y.run v = r' at h ⊢
  cases h with
  | ok h => exact hrest _ _ _ _ h
  | stop => exact .stop

theorem agrees_fail_bind (e : Error) {f : α → Act W γ} {g : β → Act V δ}
    {post : γ → W → δ → V → Prop} :
    ((fail e : Act W α) >>= f).Agrees w ((fail e : Act V β) >>= g) v post :=
  .stop

theorem agrees_effect_bind {f : W → W} {g : V → V} {rest : Unit → Act W γ}
    {rest' : Unit → Act V δ} {post : γ → W → δ → V → Prop}
    (h : (rest ()).Agrees (f w) (rest' ()) (g v) post) :
    (effect f >>= rest).Agrees w (effect g >>= rest') v post :=
  h

/-- Two sequences with the same first part. -/
theorem agrees_bind_same (x : Act W α) {f : α → Act W γ} {g : α → Act W δ}
    {post : γ → W → δ → W → Prop} (hrest : ∀ a w', (f a).Agrees w' (g a) w' post) :
    (x >>= f).Agrees w (x >>= g) w post := by
  refine (Agrees.refl x w).bind ?_
  rintro a w' _ _ ⟨rfl, rfl⟩
  exact hrest a w'

/-- Two sequences that go on with whatever their first parts answer. -/
theorem Agrees.bind_attempt {f : Except Error α → Act W γ} {g : Except Error β → Act V δ}
    {post' : γ → W → δ → V → Prop} (h : x.Agrees w y v post)
    (hok : ∀ a w' b v', post a w' b v' → (f (.ok a)).Agrees w' (g (.ok b)) v' post')
    (herror : ∀ e w' v', (f (.error e)).Agrees w' (g (.error e)) v' post') :
    (x.attempt >>= f).Agrees w (y.attempt >>= g) v post' := by
  unfold Agrees at h ⊢
  simp only [run_bind, attempt, run_ofRun]
  generalize x.run w = r, y.run v = r' at h ⊢
  cases h with
  | ok h => exact hok _ _ _ _ h
  | @stop reason w' v' =>
    cases reason with
    | error e => exact herror e w' v'
    | crash => exact .stop

/-! ## Steps on a state and a world -/

theorem agrees_update_bind {p : S × W} {q : T × V} {f : S → S} {g : T → T}
    {rest : Unit → Act (S × W) γ} {rest' : Unit → Act (T × V) δ}
    {post : γ → S × W → δ → T × V → Prop}
    (h : (rest ()).Agrees (f p.1, p.2) (rest' ()) (g q.1, q.2) post) :
    (update f >>= rest).Agrees p (update g >>= rest') q post :=
  h

theorem agrees_state {p : S × W} {q : T × V} {f : S → Act (S × W) γ} {g : T → Act (T × V) δ}
    {post : γ → S × W → δ → T × V → Prop} (h : (f p.1).Agrees p (g q.1) q post) :
    (state >>= f).Agrees p (state >>= g) q post :=
  h

theorem Agrees.outside {s : S} {t : T} (h : x.Agrees w y v post) :
    x.outside.Agrees (s, w) y.outside (t, v) fun a p b q =>
      p.1 = s ∧ q.1 = t ∧ post a p.2 b q.2 := by
  unfold Agrees at h ⊢
  simp only [Act.outside, zoom, run_ofRun]
  generalize x.run w = r, y.run v = r' at h ⊢
  cases h with
  | ok h => exact .ok ⟨rfl, rfl, h⟩
  | stop => exact .stop

/-- Calls on one part of a state, which is found again where it was put. -/
theorem Agrees.within {S' T' : Type} {get : S → S'} {put : S' → S → S} {get' : T → T'}
    {put' : T' → T → T} {x : Act (S' × W) α} {y : Act (T' × V) β} {p : S × W} {q : T × V}
    {post : α → S' × W → β → T' × V → Prop}
    (h : x.Agrees (get p.1, p.2) y (get' q.1, q.2) post)
    (hget : ∀ s t, get (put s t) = s) (hget' : ∀ s t, get' (put' s t) = s) :
    (x.within get put).Agrees p (y.within get' put') q fun a p' b q' =>
      post a (get p'.1, p'.2) b (get' q'.1, q'.2) := by
  unfold Agrees at h ⊢
  simp only [Act.within, zoom, run_ofRun]
  generalize x.run (get p.1, p.2) = r, y.run (get' q.1, q.2) = r' at h ⊢
  cases h with
  | ok h =>
    refine .ok ?_
    rw [hget, hget']
    exact h
  | stop => exact .stop

end Act

end Sharding
