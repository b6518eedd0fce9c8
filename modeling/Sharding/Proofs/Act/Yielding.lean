import Mathlib.Algebra.Group.Basic
import Sharding.Proofs.Act.Ending

/-!
# Actions that use up and yield parts of a world

As for programs of workers, `holds m w` says that the world `w` has the part `m`.  An action
`x.Yields holds m r` uses up the part `m`: when it succeeds with `a`, the part `r a` is there
instead, and when it fails, nothing is left of it.  The frame around it stays.

An object beside the world has parts of its own: `besides part holds` says what the object and the
world have together, less what belongs to the object.
-/

namespace Sharding

namespace Act

variable {W S T M α β : Type} [AddCommMonoid M] {holds : M → W → Prop} {m : M} {x : Act W α}
  {r : α → M}

/-- What is there after an answer: the part that belongs to it, and the frame. -/
def Left (holds : M → W → Prop) (r : α → M) (f : M) : Except Error α → W → Prop
  | .ok a, w => holds (r a + f) w
  | .error _, w => holds f w

/-- The action turns `m` into what belongs to its answer. -/
def Yields (holds : M → W → Prop) (m : M) (x : Act W α) (r : α → M) : Prop :=
  ∀ w f, holds (m + f) w → x.Ends w (Left holds r f)

/-- An action that is run where the part is there. -/
theorem Yields.ends {f : M} {w : W} (h : Yields holds m x r) (hw : holds (m + f) w) :
    x.Ends w (Left holds r f) :=
  h w f hw

/-- The part of an answer, of which there is none when it is an error. -/
def partOf (r : α → M) : Except Error α → M
  | .ok a => r a
  | .error _ => 0

@[simp] theorem partOf_zero (reply : Except Error α) : partOf (fun _ => (0 : M)) reply = 0 := by
  cases reply <;> rfl

theorem left_iff {f : M} {reply : Except Error α} {w : W} :
    Left holds r f reply w ↔ holds (partOf r reply + f) w := by
  cases reply with
  | ok a => rfl
  | error e =>
    rw [partOf, zero_add]
    rfl

theorem yields_pure {a : α} (h : r a = m) : Yields holds m (pure a) r := by
  subst h
  exact fun _ _ hw => hw

theorem yields_fail (e : Error) : Yields holds 0 (fail e : Act W α) r := by
  intro w f hw
  rw [zero_add] at hw
  exact hw

theorem yields_ofExcept (reply : Except Error α) :
    Yields holds 0 (ofExcept reply) fun _ => 0 := by
  cases reply with
  | ok a => exact yields_pure rfl
  | error e => exact yields_fail e

theorem yields_effect {g : W → W} {m' : M}
    (h : ∀ w f, holds (m + f) w → holds (m' + f) (g w)) :
    Yields holds m (effect g) fun _ => m' :=
  h

theorem Yields.bind {mid : α → M} {g : α → Act W β} {r : β → M} (h : Yields holds m x mid)
    (hrest : ∀ a, Yields holds (mid a) (g a) r) : Yields holds m (x >>= g) r :=
  fun w f hw => (h w f hw).bind (fun a w' hw' => hrest a w' f hw') fun _ _ hw' => hw'

/-! ## Actions that do not fail -/

/-- The action turns `m` into what belongs to its answer, and it does not fail. -/
def Succeeds (holds : M → W → Prop) (m : M) (x : Act W α) (r : α → M) : Prop :=
  ∀ w f, holds (m + f) w → x.Ends w fun reply w' => ∃ a, reply = .ok a ∧ holds (r a + f) w'

theorem succeeds_pure {a : α} (h : r a = m) : Succeeds holds m (pure a) r := by
  subst h
  exact fun _ _ hw => ⟨a, rfl, hw⟩

theorem Succeeds.yields (h : Succeeds holds m x r) : Yields holds m x r := by
  refine fun w f hw => (h w f hw).mono ?_
  rintro _ w' ⟨a, rfl, hw'⟩
  exact hw'

theorem Yields.attempt (h : Yields holds m x r) :
    Succeeds holds m x.attempt (partOf r) :=
  fun w f hw => ends_attempt.2 ((h w f hw).mono fun _ _ hleft => ⟨_, rfl, left_iff.1 hleft⟩)

theorem Succeeds.bind {mid : α → M} {g : α → Act W β} {r : β → M} (h : Succeeds holds m x mid)
    (hrest : ∀ a, Succeeds holds (mid a) (g a) r) : Succeeds holds m (x >>= g) r := by
  refine fun w f hw => (h w f hw).bind ?_ ?_
  · rintro a w' ⟨_, ⟨⟩, hw'⟩
    exact hrest a w' f hw'
  · rintro e w' ⟨_, ⟨⟩, -⟩

/-- What is not used is still there. -/
theorem Succeeds.frame (h : Succeeds holds m x r) (k : M) :
    Succeeds holds (m + k) x fun a => r a + k := by
  intro w f hw
  rw [add_assoc] at hw
  refine (h w _ hw).mono ?_
  rintro _ w' ⟨a, rfl, hw'⟩
  exact ⟨a, rfl, by rwa [add_assoc]⟩

/-! ## A state beside the world -/

/-- The world has what belongs to the state, and `m`. -/
def besides (part : S → M) (holds : M → W → Prop) (m : M) (p : S × W) : Prop :=
  holds (part p.1 + m) p.2

variable {part : S → M}

theorem Yields.outside (h : Yields holds m x r) : Yields (besides part holds) m x.outside r := by
  rintro ⟨s, w⟩ f hw
  rw [besides, add_left_comm] at hw
  refine ends_outside.2 ((h w _ hw).mono fun reply w' hleft => ?_)
  cases reply with
  | ok a =>
    show holds (part s + (r a + f)) w'
    rw [add_left_comm]
    exact hleft
  | error e => exact hleft

/-- A call on one part of the state, whose share of the whole is known. -/
theorem Yields.within {share : T → M} {get : S → T} {put : T → S → S} {y : Act (T × W) α}
    (h : Yields (besides share holds) m y r)
    (hpart : ∀ s, ∃ k, part s = share (get s) + k ∧ ∀ t, part (put t s) = share t + k) :
    Yields (besides part holds) m (y.within get put) r := by
  rintro ⟨s, w⟩ f hw
  obtain ⟨k, hs, hput⟩ := hpart s
  have hw' : besides share holds (m + (k + f)) (get s, w) := by
    show holds (share (get s) + (m + (k + f))) w
    rw [add_left_comm m, ← add_assoc (share (get s)), ← hs]
    exact hw
  refine ends_within.2 ((h _ _ hw').mono ?_)
  rintro reply ⟨t, w''⟩ hleft
  cases reply with
  | ok a =>
    show holds (part (put t s) + (r a + f)) w''
    rw [hput, add_assoc, add_left_comm k]
    exact hleft
  | error e =>
    show holds (part (put t s) + f) w''
    rw [hput, add_assoc]
    exact hleft

theorem yields_state {g : S → Act (S × W) β} {r : β → M}
    (h : ∀ s w f, besides part holds (m + f) (s, w) →
      (g s).Ends (s, w) (Left (besides part holds) r f)) :
    Yields (besides part holds) m (state >>= g) r :=
  fun (s, w) f hw => ends_bind.2 (h s w f hw)

theorem yields_update {g : S → S} {m' : M} (h : ∀ s, part (g s) + m' = part s + m) :
    Yields (besides part holds) m (update g) fun _ => m' := by
  rintro ⟨s, w⟩ f hw
  show holds (part (g s) + (m' + f)) w
  rw [← add_assoc, h, add_assoc]
  exact hw

end Act

end Sharding
