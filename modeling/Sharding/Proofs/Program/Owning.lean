import Mathlib.Algebra.BigOperators.Group.List.Basic
import Sharding.Program

/-!
# Programs that own a part of the world

Between two calls of a worker the others make theirs, so a worker knows the world only as far as
nobody else changes it.  `holds m w` says that the world `w` has the part `m`.  Parts add up, and a
part of the world stays with its owner whatever the others do with theirs.

`p.Owns holds post m` says that the program `p`, which owns `m` at its start, turns with every call
what it owns into something else and leaves the frame around it alone.  When the program is over,
`post` holds of its result and of what it owns then.

`Allotted R m xs ys` relates two lists element by element, where each pair has its part of `m`.
Programs that are allotted parts of the world may be run at a time: whatever the turns are, their
results are allotted the parts that they end with (`interleave_owns`).
-/

namespace Sharding

/-! ## Parts of a whole -/

/-- The elements of two lists are related pair by pair, and each pair has its part of `m`. -/
inductive Allotted {M σ τ : Type} [AddCommMonoid M] (R : M → σ → τ → Prop) :
    M → List σ → List τ → Prop
  | nil : Allotted R 0 [] []
  | cons {m rest x y xs ys} : R m x y → Allotted R rest xs ys →
      Allotted R (m + rest) (x :: xs) (y :: ys)

namespace Allotted

variable {M σ τ : Type} [AddCommMonoid M] {R R' : M → σ → τ → Prop} {m n : M} {xs xs' : List σ}
  {ys ys' : List τ}

theorem append (h : Allotted R m xs ys) (h' : Allotted R n xs' ys') :
    Allotted R (m + n) (xs ++ xs') (ys ++ ys') := by
  induction h with
  | nil =>
    rw [zero_add]
    exact h'
  | cons hxy _ ih =>
    rw [add_assoc]
    exact .cons hxy ih

theorem flatten {xss : List (List σ)} {yss : List (List τ)}
    (h : Allotted (Allotted R) m xss yss) : Allotted R m xss.flatten yss.flatten := by
  induction h with
  | nil => exact .nil
  | cons hxy _ ih => exact hxy.append ih

theorem map_left_iff {σ' : Type} {f : σ' → σ} {xs : List σ'} :
    Allotted R m (xs.map f) ys ↔ Allotted (fun m x y => R m (f x) y) m xs ys := by
  constructor
  · intro h
    induction xs generalizing m ys with
    | nil =>
      cases h
      exact .nil
    | cons x xs ih =>
      cases h with
      | cons hxy hrest => exact .cons hxy (ih hrest)
  · intro h
    induction h with
    | nil => exact .nil
    | cons hxy _ ih => exact .cons hxy ih

theorem zipWith {υ : Type} {R' : M → σ → υ → Prop} {g : σ → τ → υ} (h : Allotted R m xs ys)
    (hR : ∀ x y m, R m x y → R' m x (g x y)) : Allotted R' m xs (List.zipWith g xs ys) := by
  induction h with
  | nil => exact .nil
  | cons hxy _ ih => exact .cons (hR _ _ _ hxy) ih

theorem of_map {υ : Type} {own : υ → M} {f : υ → σ} {g : υ → τ} {xs : List υ}
    (h : ∀ x ∈ xs, R (own x) (f x) (g x)) : Allotted R (xs.map own).sum (xs.map f) (xs.map g) := by
  induction xs with
  | nil => exact .nil
  | cons x xs ih =>
    rw [List.map_cons, List.sum_cons]
    exact .cons (h x List.mem_cons_self) (ih fun x hx => h x (List.mem_cons_of_mem _ hx))

end Allotted

/-! ## Programs -/

namespace Program

variable {W M α β : Type} [AddCommMonoid M] {holds : M → W → Prop}

/-- What is known of the result of a program, and of what it owns then. -/
abbrev Post (M α : Type) := Except Stop α → M → Prop

/-- The program changes nothing but what it owns, and ends with `post`. -/
def Owns (holds : M → W → Prop) (post : Post M α) : Program W α → M → Prop
  | done result, m => post result m
  | call effect next, m => ∀ w f, holds (m + f) w →
      ∃ m', holds (m' + f) (effect w) ∧ (next w).Owns holds post m'

variable {m : M} {p : Program W α} {post post' : Post M α}

theorem Owns.mono (h : p.Owns holds post m) (hpost : ∀ result m, post result m → post' result m) :
    p.Owns holds post' m := by
  induction p generalizing m with
  | done result => exact hpost result m h
  | call effect next ih =>
    intro w f hw
    obtain ⟨m', hw', hnext⟩ := h w f hw
    exact ⟨m', hw', ih w hnext⟩

/-- The program does not crash.  It ends with what belongs to its value, and with nothing when it
fails. -/
def EndsWith (held : α → M) : Post M α
  | .ok a, m => m = held a
  | .error (.error _), m => m = 0
  | .error .crash, _ => False

theorem owns_pure {a : α} (h : post (.ok a) m) : (pure a : Program W α).Owns holds post m :=
  h

/-- An action that changes what is owned only. -/
theorem owns_ofAct {x : Act W α}
    (h : ∀ w f, holds (m + f) w → ∃ m', holds (m' + f) (x.run w).2 ∧ post (x.run w).1 m') :
    (ofAct x).Owns holds post m :=
  h

theorem Owns.bind {mid : Post M α} {post : Post M β} {g : α → Program W β}
    (h : p.Owns holds mid m) (hok : ∀ a m', mid (.ok a) m' → (g a).Owns holds post m')
    (hstop : ∀ stop m', mid (.error stop) m' → post (.error stop) m') :
    (p >>= g).Owns holds post m := by
  change (p.bind g).Owns holds post m
  induction p generalizing m with
  | done result =>
    cases result with
    | ok a => exact hok a m h
    | error stop => exact hstop stop m h
  | call effect next ih =>
    intro w f hw
    obtain ⟨m', hw', hnext⟩ := h w f hw
    exact ⟨m', hw', ih w hnext⟩

theorem Owns.bind_endsWith {mid : α → M} {held : β → M} {g : α → Program W β}
    (h : p.Owns holds (EndsWith mid) m) (hrest : ∀ a, (g a).Owns holds (EndsWith held) (mid a)) :
    (p >>= g).Owns holds (EndsWith held) m := by
  refine h.bind ?_ ?_
  · rintro a m' rfl
    exact hrest a
  · rintro (e | _) m' hm'
    · exact hm'
    · exact hm'

theorem Owns.attempt {post : Post M (Except Error α)} (h : p.Owns holds (fun result m =>
      match result with
      | .ok a => post (.ok (.ok a)) m
      | .error (.error e) => post (.ok (.error e)) m
      | .error .crash => post (.error .crash) m) m) :
    p.attempt.Owns holds post m := by
  induction p generalizing m with
  | done result => rcases result with ⟨_ | _⟩ | _ <;> exact h
  | call effect next ih =>
    intro w f hw
    obtain ⟨m', hw', hnext⟩ := h w f hw
    exact ⟨m', hw', ih w hnext⟩

/-! ## Runs -/

/-- A program that runs without a break. -/
theorem Owns.run (h : p.Owns holds post m) {w : W} {f : M} (hw : holds (m + f) w) :
    ∃ m', holds (m' + f) (p.run w).2 ∧ post (p.run w).1 m' := by
  induction p generalizing m w with
  | done result => exact ⟨m, hw, h⟩
  | call effect next ih =>
    obtain ⟨m', hw', hnext⟩ := h w f hw
    exact ih w hnext hw'

theorem Owns.step (h : p.Owns holds post m) {w : W} {f : M} (hw : holds (m + f) w) :
    ∃ m', holds (m' + f) (p.step w).2 ∧ (p.step w).1.Owns holds post m' := by
  cases p with
  | done result => exact ⟨m, hw, h⟩
  | call effect next => exact h w f hw

/-- The program owns `m` and ends with `post`. -/
def Owning (holds : M → W → Prop) (m : M) (post : Post M α) (p : Program W α) : Prop :=
  p.Owns holds post m

/-- The result comes with `m`, as `post` says. -/
def Ending (m : M) (post : Post M α) (result : Except Stop α) : Prop :=
  post result m

variable {posts : List (Post M α)} {ps : List (Program W α)}

theorem allotted_runEach (h : Allotted (Owning holds) m posts ps) {w : W} {f : M}
    (hw : holds (m + f) w) :
    ∃ m', holds (m' + f) (runEach ps w).2 ∧ Allotted Ending m' posts (runEach ps w).1 := by
  induction h generalizing w f with
  | nil => exact ⟨0, hw, .nil⟩
  | cons hp _ ih =>
    rw [add_assoc] at hw
    obtain ⟨m', hw', hpost⟩ := Owns.run hp hw
    rw [add_left_comm] at hw'
    obtain ⟨rest', hw'', hrest⟩ := ih hw'
    refine ⟨m' + rest', ?_, .cons hpost hrest⟩
    rw [add_assoc, add_left_comm]
    exact hw''

/-- One program makes its next call, and the others keep what they own. -/
theorem allotted_step (h : Allotted (Owning holds) m posts ps) {i : Nat} (hi : ps[i]? = some p)
    {w : W} {f : M} (hw : holds (m + f) w) :
    ∃ m', holds (m' + f) (p.step w).2 ∧
      Allotted (Owning holds) m' posts (ps.set i (p.step w).1) := by
  induction h generalizing i w f with
  | nil => cases hi
  | @cons m rest _ _ _ _ hq hqs ih =>
    cases i with
    | zero =>
      cases hi
      rw [add_assoc] at hw
      obtain ⟨m', hw', hq'⟩ := Owns.step hq hw
      rw [← add_assoc] at hw'
      exact ⟨m' + rest, hw', .cons hq' hqs⟩
    | succ i =>
      rw [add_assoc, add_left_comm] at hw
      obtain ⟨rest', hw', hqs'⟩ := ih hi hw
      rw [add_left_comm, ← add_assoc] at hw'
      exact ⟨m + rest', hw', .cons hq hqs'⟩

/-- However the calls are interleaved, the programs end as each of them would alone. -/
theorem interleave_owns (turns : List Nat) (h : Allotted (Owning holds) m posts ps) {w : W} {f : M}
    (hw : holds (m + f) w) :
    ∃ m', holds (m' + f) (interleave turns ps w).2 ∧
      Allotted Ending m' posts (interleave turns ps w).1 := by
  induction turns generalizing ps m w with
  | nil => exact allotted_runEach h hw
  | cons i turns ih =>
    rw [interleave]
    cases hi : ps[i]? with
    | none => exact ih h hw
    | some p =>
      obtain ⟨m', hw', h'⟩ := allotted_step h hi hw
      exact ih h' hw'

/-! ## One program after the other -/

theorem bind_pure (p : Program W α) : (p >>= pure : Program W α) = p := by
  change p.bind (fun a => done (.ok a)) = p
  induction p with
  | done result => cases result <;> rfl
  | call effect next ih => exact congrArg (call effect) (funext ih)

theorem bind_assoc {γ : Type} (p : Program W α) (g : α → Program W β) (h : β → Program W γ) :
    p >>= g >>= h = p >>= fun a => g a >>= h := by
  change (p.bind g).bind h = p.bind fun a => (g a).bind h
  induction p with
  | done result => cases result <;> rfl
  | call effect next ih => exact congrArg (call effect) (funext ih)

instance : LawfulMonad (Program W) :=
  LawfulMonad.mk' _ bind_pure (fun _ _ => rfl) bind_assoc

/-- What is not owned is left as it is. -/
theorem Owns.frame (h : p.Owns holds post m) (f : M) :
    p.Owns holds (fun result m' => ∃ k, m' = k + f ∧ post result k) (m + f) := by
  induction p generalizing m with
  | done result => exact ⟨m, rfl, h⟩
  | call effect next ih =>
    intro w f' hw
    rw [add_assoc] at hw
    obtain ⟨m', hw', hnext⟩ := h w (f + f') hw
    rw [← add_assoc] at hw'
    exact ⟨m' + f, hw', ih w hnext⟩

/-- The results of a list of programs, each of which owns its part. -/
theorem owns_mapM {σ : Type} {g : σ → Program W β} {R : M → σ → β → Prop} {own : σ → M}
    {xs : List σ}
    (h : ∀ x ∈ xs, (g x).Owns holds (fun result m => ∃ y, result = .ok y ∧ R m x y) (own x)) :
    (xs.mapM g).Owns holds (fun result m => ∃ ys, result = .ok ys ∧ Allotted R m xs ys)
      (xs.map own).sum := by
  induction xs with
  | nil => exact ⟨[], rfl, .nil⟩
  | cons x xs ih =>
    rw [List.mapM_cons, List.map_cons, List.sum_cons]
    refine ((h x List.mem_cons_self).frame _).bind ?_ ?_
    · rintro y _ ⟨k, rfl, _, ⟨⟩, hxy⟩
      rw [add_comm]
      refine ((ih fun x hx => h x (List.mem_cons_of_mem _ hx)).frame k).bind ?_ ?_
      · rintro ys _ ⟨rest, rfl, _, ⟨⟩, hrest⟩
        rw [add_comm]
        exact owns_pure ⟨_, rfl, .cons hxy hrest⟩
      · rintro stop _ ⟨_, _, _, ⟨⟩, _⟩
    · rintro stop _ ⟨_, _, _, ⟨⟩, _⟩

end Program

end Sharding
