import Sharding.Proofs.Act.Ending
import Sharding.Proofs.Program.Owning

/-!
# Actions that reply

`x.Replies w post` says that the action `x` answers in the world `w`, and what is known then: it is
`x.Ends w post` together with the fact that there is no crash.

`x.Owns holds m post` is the same for a part of the world, as it is for the programs of workers: the
action replies wherever it owns `m`, it leaves the frame around `m` alone, and `post` holds of its
answer and of what it owns then.  Such an action is a call that a worker may make
(`Owns.ofAct`).
-/

namespace Sharding

namespace Act

variable {W S M α β : Type}

section Replying

variable {w : W} {s : S} {x : Act W α} {f : α → Act W β}

/-- The action answers, and `post` holds of the answer and of the world afterwards. -/
def Replies (x : Act W α) (w : W) (post : Except Error α → W → Prop) : Prop :=
  match x.run w with
  | (.ok a, w) => post (.ok a) w
  | (.error (.error e), w) => post (.error e) w
  | (.error .crash, _) => False

theorem replies_iff {post : Except Error α → W → Prop} :
    x.Replies w post ↔ ∃ reply w', x.attempt.run w = (.ok reply, w') ∧ post reply w' := by
  simp only [Replies, attempt, run_ofRun]
  rcases x.run w with ⟨⟨_ | _⟩ | _, w'⟩
  all_goals simp

theorem Replies.ends {post : Except Error α → W → Prop} (h : x.Replies w post) :
    x.Ends w post := by
  obtain ⟨reply, w', hrun, hpost⟩ := replies_iff.1 h
  refine ends_iff.2 fun reply' w'' hrun' => ?_
  rw [hrun] at hrun'
  cases hrun'
  exact hpost

theorem Replies.mono {post post' : Except Error α → W → Prop} (h : x.Replies w post)
    (hpost : ∀ reply w', post reply w' → post' reply w') : x.Replies w post' := by
  obtain ⟨reply, w', hrun, hreply⟩ := replies_iff.1 h
  exact replies_iff.2 ⟨reply, w', hrun, hpost reply w' hreply⟩

/-! ## Steps -/

@[simp] theorem replies_pure {a : α} {post : Except Error α → W → Prop} :
    (pure a : Act W α).Replies w post ↔ post (.ok a) w :=
  Iff.rfl

@[simp] theorem replies_ofStep {g : W → Except Error α × W} {post : Except Error α → W → Prop} :
    (ofStep g).Replies w post ↔ post (g w).1 (g w).2 := by
  simp only [Replies, ofStep, run_ofRun]
  rcases g w with ⟨_ | _, w'⟩ <;> rfl

@[simp] theorem replies_ofExcept {r : Except Error α} {post : Except Error α → W → Prop} :
    (ofExcept r : Act W α).Replies w post ↔ post r w := by
  cases r <;> rfl

/-- A sequence replies if its second part does after every result of the first, and if its first
part fails well. -/
theorem Replies.bind {mid : Except Error α → W → Prop} {post : Except Error β → W → Prop}
    (h : x.Replies w mid) (hok : ∀ a w', mid (.ok a) w' → (f a).Replies w' post)
    (herror : ∀ e w', mid (.error e) w' → post (.error e) w') : (x >>= f).Replies w post := by
  unfold Replies at h ⊢
  rw [run_bind]
  rcases hrun : x.run w with ⟨⟨e | _⟩ | a, w'⟩ <;> rw [hrun] at h
  · exact herror e w' h
  · exact h
  · exact hok a w' h

@[simp] theorem replies_attempt {post : Except Error (Except Error α) → W → Prop} :
    x.attempt.Replies w post ↔ x.Replies w fun reply w => post (.ok reply) w := by
  simp only [Replies, attempt, run_ofRun]
  rcases x.run w with ⟨⟨_ | _⟩ | _, w'⟩ <;> rfl

/-- A sequence that goes on with whatever its first part answers. -/
theorem Replies.bind_attempt {mid : Except Error α → W → Prop} {post : Except Error β → W → Prop}
    {g : Except Error α → Act W β} (h : x.Replies w mid)
    (hrest : ∀ reply w', mid reply w' → (g reply).Replies w' post) :
    (x.attempt >>= g).Replies w post := by
  have hattempt : x.attempt.Replies w fun reply w' => ∃ r, reply = .ok r ∧ mid r w' :=
    replies_attempt.2 (h.mono fun reply _ hreply => ⟨reply, rfl, hreply⟩)
  refine hattempt.bind ?_ ?_
  · rintro reply w' ⟨_, ⟨⟩, hreply⟩
    exact hrest reply w' hreply
  · rintro e w' ⟨_, ⟨⟩, _⟩

theorem replies_effect_bind {g : W → W} {y : Act W β} {post : Except Error β → W → Prop} :
    (do effect g; y).Replies w post ↔ y.Replies (g w) post :=
  Iff.rfl

/-! ## Steps on a state and a world -/

theorem replies_state_bind {g : S → Act (S × W) β} {post : Except Error β → S × W → Prop} :
    (state >>= g).Replies (s, w) post ↔ (g s).Replies (s, w) post :=
  Iff.rfl

theorem replies_update_bind {g : S → S} {y : Act (S × W) β}
    {post : Except Error β → S × W → Prop} :
    (do update g; y).Replies (s, w) post ↔ y.Replies (g s, w) post :=
  Iff.rfl

@[simp] theorem replies_outside {post : Except Error α → S × W → Prop} :
    x.outside.Replies (s, w) post ↔ x.Replies w fun reply w => post reply (s, w) := by
  simp only [Replies, outside, zoom, run_ofRun]
  rcases x.run w with ⟨⟨_ | _⟩ | _, w'⟩ <;> rfl

theorem Replies.outside_bind {mid : Except Error α → W → Prop}
    {post : Except Error β → S × W → Prop} {g : α → Act (S × W) β} (h : x.Replies w mid)
    (hok : ∀ a w', mid (.ok a) w' → (g a).Replies (s, w') post)
    (herror : ∀ e w', mid (.error e) w' → post (.error e) (s, w')) :
    (x.outside >>= g).Replies (s, w) post := by
  have houtside : x.outside.Replies (s, w) fun reply p => p.1 = s ∧ mid reply p.2 :=
    replies_outside.2 (h.mono fun reply w' hreply => ⟨rfl, hreply⟩)
  refine houtside.bind (fun a p hp => ?_) fun e p hp => ?_
  · obtain ⟨_, w'⟩ := p
    obtain ⟨rfl, ha⟩ := hp
    exact hok a w' ha
  · obtain ⟨_, w'⟩ := p
    obtain ⟨rfl, he⟩ := hp
    exact herror e w' he

end Replying

/-! ## Parts of a world -/

section Owning

variable [AddCommMonoid M] {holds : M → W → Prop} {m : M} {x : Act W α}
  {post : Except Error α → M → Prop}

/-- The action replies and changes nothing but what it owns; `post` holds of the answer and of what
it owns then. -/
def Owns (x : Act W α) (holds : M → W → Prop) (m : M) (post : Except Error α → M → Prop) : Prop :=
  ∀ w f, holds (m + f) w → x.Replies w fun reply w' => ∃ m', holds (m' + f) w' ∧ post reply m'

theorem Owns.mono {post' : Except Error α → M → Prop} (h : x.Owns holds m post)
    (hpost : ∀ reply m, post reply m → post' reply m) : x.Owns holds m post' := by
  intro w f hw
  refine (h w f hw).mono fun reply w' hreply => ?_
  obtain ⟨m', hm', hreply⟩ := hreply
  exact ⟨m', hm', hpost reply m' hreply⟩

theorem owns_pure {a : α} (h : post (.ok a) m) : (pure a : Act W α).Owns holds m post :=
  fun _ _ hw => ⟨m, hw, h⟩

theorem Owns.bind {mid : Except Error α → M → Prop} {post : Except Error β → M → Prop}
    {g : α → Act W β} (h : x.Owns holds m mid)
    (hok : ∀ a m', mid (.ok a) m' → (g a).Owns holds m' post)
    (herror : ∀ e m', mid (.error e) m' → post (.error e) m') :
    (x >>= g).Owns holds m post := by
  intro w f hw
  refine (h w f hw).bind (fun a w' hmid => ?_) fun e w' hmid => ?_
  · obtain ⟨m', hm', ha⟩ := hmid
    exact hok a m' ha w' f hm'
  · obtain ⟨m', hm', he⟩ := hmid
    exact ⟨m', hm', herror e m' he⟩

theorem Owns.bind_attempt {mid : Except Error α → M → Prop} {post : Except Error β → M → Prop}
    {g : Except Error α → Act W β} (h : x.Owns holds m mid)
    (hrest : ∀ reply m', mid reply m' → (g reply).Owns holds m' post) :
    (x.attempt >>= g).Owns holds m post := by
  intro w f hw
  refine (h w f hw).bind_attempt fun reply w' hmid => ?_
  obtain ⟨m', hm', hreply⟩ := hmid
  exact hrest reply m' hreply w' f hm'

/-- What is not used is still there. -/
theorem Owns.frame (h : x.Owns holds m post) (k : M) :
    x.Owns holds (m + k) fun reply m' => ∃ own, m' = own + k ∧ post reply own := by
  intro w f hw
  rw [add_assoc] at hw
  refine (h w (k + f) hw).mono fun reply w' hreply => ?_
  obtain ⟨own, hown, hpost⟩ := hreply
  rw [← add_assoc] at hown
  exact ⟨own + k, hown, own, rfl, hpost⟩

/-- The result of a program that does not crash, as an answer. -/
def Answering (post : Except Error α → M → Prop) : Program.Post M α
  | .ok a, m => post (.ok a) m
  | .error (.error e), m => post (.error e) m
  | .error .crash, _ => False

/-- A call of a worker. -/
theorem Owns.ofAct (h : x.Owns holds m post) :
    (Program.ofAct x).Owns holds (Answering post) m := by
  refine Program.owns_ofAct fun w f hw => ?_
  have hreply := h w f hw
  unfold Replies at hreply
  rcases hrun : x.run w with ⟨⟨e | _⟩ | a, w'⟩ <;> rw [hrun] at hreply
  · exact hreply
  · exact hreply.elim
  · exact hreply

theorem Answering.bind {mid : Except Error α → M → Prop} {post : Except Error β → M → Prop}
    {p : Program W α} {g : α → Program W β} (h : p.Owns holds (Answering mid) m)
    (hok : ∀ a m', mid (.ok a) m' → (g a).Owns holds (Answering post) m')
    (herror : ∀ e m', mid (.error e) m' → post (.error e) m') :
    (p >>= g).Owns holds (Answering post) m := by
  refine Program.Owns.bind h hok fun stop m' hstop => ?_
  cases stop with
  | error e => exact herror e m' hstop
  | crash => exact hstop

end Owning

end Act

end Sharding
