import Sharding.Act

/-!
# How actions end

`x.Ends w post` says what is known when the action `x` answers in the world `w`: whatever the
answer, a value or an error, `post` holds of it and of the world afterwards.  A crash is no answer,
so nothing is said about it.

The lemmas take an action apart along its steps.  A step whose effect does not matter is passed over
by `Ends.of_forall`.
-/

namespace Sharding

namespace Act

variable {W S α β : Type} {w : W} {s : S} {x : Act W α} {f : α → Act W β}

/-- Whatever the action answers, `post` holds of the answer and of the world afterwards. -/
def Ends (x : Act W α) (w : W) (post : Except Error α → W → Prop) : Prop :=
  match x.run w with
  | (.ok a, w) => post (.ok a) w
  | (.error (.error e), w) => post (.error e) w
  | (.error .crash, _) => True

theorem ends_iff {post : Except Error α → W → Prop} :
    x.Ends w post ↔ ∀ reply w', x.attempt.run w = (.ok reply, w') → post reply w' := by
  simp only [Ends, attempt, run_ofRun]
  rcases x.run w with ⟨⟨_ | _⟩ | _, w'⟩
  all_goals simp [eq_comm]

/-- Every answer will do. -/
theorem Ends.of_forall {post : Except Error α → W → Prop} (h : ∀ reply w', post reply w') :
    x.Ends w post :=
  ends_iff.2 fun reply w' _ => h reply w'

theorem Ends.mono {post post' : Except Error α → W → Prop} (h : x.Ends w post)
    (hpost : ∀ reply w', post reply w' → post' reply w') : x.Ends w post' :=
  ends_iff.2 fun reply w' hrun => hpost reply w' (ends_iff.1 h reply w' hrun)

theorem Ends.and {post post' : Except Error α → W → Prop} (h : x.Ends w post)
    (h' : x.Ends w post') : x.Ends w fun reply w => post reply w ∧ post' reply w :=
  ends_iff.2 fun reply w' hrun => ⟨ends_iff.1 h reply w' hrun, ends_iff.1 h' reply w' hrun⟩

/-! ## Steps -/

@[simp] theorem ends_pure {a : α} {post : Except Error α → W → Prop} :
    (pure a : Act W α).Ends w post ↔ post (.ok a) w :=
  Iff.rfl

@[simp] theorem ends_fail {e : Error} {post : Except Error α → W → Prop} :
    (fail e : Act W α).Ends w post ↔ post (.error e) w :=
  Iff.rfl

@[simp] theorem ends_world {post : Except Error W → W → Prop} :
    (world : Act W W).Ends w post ↔ post (.ok w) w :=
  Iff.rfl

@[simp] theorem ends_effect {g : W → W} {post : Except Error Unit → W → Prop} :
    (effect g).Ends w post ↔ post (.ok ()) (g w) :=
  Iff.rfl

@[simp] theorem ends_ofStep {g : W → Except Error α × W} {post : Except Error α → W → Prop} :
    (ofStep g).Ends w post ↔ post (g w).1 (g w).2 := by
  simp only [Ends, ofStep, run_ofRun]
  rcases g w with ⟨_ | _, w'⟩ <;> rfl

@[simp] theorem ends_ofExcept {r : Except Error α} {post : Except Error α → W → Prop} :
    (ofExcept r : Act W α).Ends w post ↔ post r w := by
  cases r <;> rfl

/-- A sequence ends with its second part, or where its first part fails. -/
@[simp] theorem ends_bind {post : Except Error β → W → Prop} :
    (x >>= f).Ends w post ↔ x.Ends w fun reply w =>
      match reply with
      | .ok a => (f a).Ends w post
      | .error e => post (.error e) w := by
  simp only [Ends, run_bind]
  rcases x.run w with ⟨⟨_ | _⟩ | _, w'⟩ <;> rfl

/-- A sequence ends well if its second part does after every result of the first, and if its first
part fails well. -/
theorem Ends.bind {mid : Except Error α → W → Prop} {post : Except Error β → W → Prop}
    (h : x.Ends w mid) (hok : ∀ a w', mid (.ok a) w' → (f a).Ends w' post)
    (herror : ∀ e w', mid (.error e) w' → post (.error e) w') : (x >>= f).Ends w post := by
  refine ends_bind.2 (h.mono fun reply w' hreply => ?_)
  cases reply with
  | ok a => exact hok a w' hreply
  | error e => exact herror e w' hreply

@[simp] theorem ends_attempt {post : Except Error (Except Error α) → W → Prop} :
    x.attempt.Ends w post ↔ x.Ends w fun reply w => post (.ok reply) w := by
  simp only [Ends, attempt, run_ofRun]
  rcases x.run w with ⟨⟨_ | _⟩ | _, w'⟩ <;> rfl

/-- A sequence that goes on with whatever its first part answers. -/
theorem Ends.bind_attempt {mid : Except Error α → W → Prop} {post : Except Error β → W → Prop}
    {g : Except Error α → Act W β} (h : x.Ends w mid)
    (hrest : ∀ reply w', mid reply w' → (g reply).Ends w' post) :
    (x.attempt >>= g).Ends w post :=
  ends_bind.2 (ends_attempt.2 (h.mono hrest))

/-- A sequence whose second part does not hang on the first, whatever that answers. -/
theorem ends_bind_attempt {post : Except Error β → W → Prop} {g : Except Error α → Act W β}
    (h : ∀ reply w', (g reply).Ends w' post) : (x.attempt >>= g).Ends w post :=
  ends_bind.2 (ends_attempt.2 (.of_forall h))

/-! ## Steps on a state and a world -/

@[simp] theorem ends_state {post : Except Error S → S × W → Prop} :
    (state : Act (S × W) S).Ends (s, w) post ↔ post (.ok s) (s, w) :=
  Iff.rfl

@[simp] theorem ends_update {g : S → S} {post : Except Error Unit → S × W → Prop} :
    (update g : Act (S × W) Unit).Ends (s, w) post ↔ post (.ok ()) (g s, w) :=
  Iff.rfl

@[simp] theorem ends_outside {post : Except Error α → S × W → Prop} :
    x.outside.Ends (s, w) post ↔ x.Ends w fun reply w => post reply (s, w) := by
  simp only [Ends, outside, zoom, run_ofRun]
  rcases x.run w with ⟨⟨_ | _⟩ | _, w'⟩ <;> rfl

@[simp] theorem ends_within {T : Type} {part : S → T} {put : T → S → S} {y : Act (T × W) α}
    {post : Except Error α → S × W → Prop} :
    (y.within part put).Ends (s, w) post ↔
      y.Ends (part s, w) fun reply q => post reply (put q.1 s, q.2) := by
  simp only [Ends, within, zoom, run_ofRun]
  rcases y.run (part s, w) with ⟨⟨_ | _⟩ | _, q⟩ <;> rfl

end Act

end Sharding
