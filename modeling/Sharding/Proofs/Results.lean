import Mathlib.Data.List.Forall2
import Sharding.Act

/-!
# Computations that succeed

A computation made of steps succeeds when every step does.  The lemmas here take such a success
apart: into the results of the steps for `Except`, and into their results and the worlds between
them for `Act`.
-/

namespace Sharding

variable {ε ε' α β : Type}

/-! ## Results without a world -/

theorem exists_of_bind_eq_ok {x : Except ε α} {f : α → Except ε β} {b : β}
    (h : x >>= f = .ok b) : ∃ a, x = .ok a ∧ f a = .ok b := by
  cases x with
  | error e => cases h
  | ok a => exact ⟨a, rfl, h⟩

theorem eq_ok_of_mapError {x : Except ε α} {f : ε → ε'} {a : α} (h : x.mapError f = .ok a) :
    x = .ok a := by
  cases x with
  | error e => cases h
  | ok a' =>
    cases h
    rfl

/-- The results of a list, one for each element. -/
theorem mapM_eq_ok_iff {f : α → Except ε β} {xs : List α} {ys : List β} :
    xs.mapM f = .ok ys ↔ List.Forall₂ (fun x y => f x = .ok y) xs ys := by
  induction xs generalizing ys with
  | nil =>
    rw [List.mapM_nil]
    refine ⟨fun h => ?_, fun h => ?_⟩
    · cases h
      exact .nil
    · cases h
      rfl
  | cons x xs ih =>
    rw [List.mapM_cons]
    refine ⟨fun h => ?_, fun h => ?_⟩
    · obtain ⟨y, hy, h⟩ := exists_of_bind_eq_ok h
      obtain ⟨rest, hrest, h⟩ := exists_of_bind_eq_ok h
      cases h
      exact .cons hy (ih.1 hrest)
    · cases h with
      | cons hy hrest =>
        rw [hy, ih.2 hrest]
        rfl

/-- The results of a list are those of a function, if each of its steps is. -/
theorem mapM_eq_map {f : α → Except ε β} {g : α → β} {xs : List α} {ys : List β}
    (h : xs.mapM f = .ok ys) (hg : ∀ x ∈ xs, ∀ y, f x = .ok y → y = g x) : ys = xs.map g := by
  have hall := mapM_eq_ok_iff.1 h
  clear h
  induction hall with
  | nil => rfl
  | cons hy _ ih =>
    rw [List.map_cons, hg _ List.mem_cons_self _ hy,
      ih fun x hx => hg x (List.mem_cons_of_mem _ hx)]

/-- Steps that succeed on related elements have related results. -/
theorem exists_mapM_of_forall₂ {γ : Type} {f : α → Except ε β} {Q : γ → α → Prop}
    {R : γ → β → Prop} {ps : List γ} {xs : List α} (h : List.Forall₂ Q ps xs)
    (hstep : ∀ p x, Q p x → ∃ y, f x = .ok y ∧ R p y) :
    ∃ ys, xs.mapM f = .ok ys ∧ List.Forall₂ R ps ys := by
  induction h with
  | nil => exact ⟨[], rfl, .nil⟩
  | cons hx _ ih =>
    obtain ⟨y, hy, hrelated⟩ := hstep _ _ hx
    obtain ⟨ys, hys, hall⟩ := ih
    refine ⟨y :: ys, ?_, .cons hrelated hall⟩
    rw [List.mapM_cons, hy, hys]
    rfl

theorem exists_of_mapM {f : α → Except ε β} {xs : List α} {ys : List β} (h : xs.mapM f = .ok ys)
    {x : α} (hx : x ∈ xs) : ∃ y, f x = .ok y := by
  have hall := mapM_eq_ok_iff.1 h
  clear h
  induction hall with
  | nil => cases hx
  | cons hy _ ih =>
    rcases List.mem_cons.1 hx with rfl | hx
    · exact ⟨_, hy⟩
    · exact ih hx

/-- The result of each element is among the results. -/
theorem mem_of_mapM {f : α → Except ε β} {xs : List α} {ys : List β} (h : xs.mapM f = .ok ys)
    {x : α} {y : β} (hx : x ∈ xs) (hy : f x = .ok y) : y ∈ ys := by
  have hall := mapM_eq_ok_iff.1 h
  clear h
  induction hall with
  | nil => cases hx
  | cons hhead _ ih =>
    rcases List.mem_cons.1 hx with rfl | hx
    · cases hy.symm.trans hhead
      exact List.mem_cons_self
    · exact List.mem_cons_of_mem _ (ih hx)

/-- Each result is that of an element. -/
theorem exists_of_mem_mapM {f : α → Except ε β} {xs : List α} {ys : List β}
    (h : xs.mapM f = .ok ys) {y : β} (hy : y ∈ ys) : ∃ x ∈ xs, f x = .ok y := by
  have hall := mapM_eq_ok_iff.1 h
  clear h
  induction hall with
  | nil => cases hy
  | cons hhead _ ih =>
    rcases List.mem_cons.1 hy with rfl | hy
    · exact ⟨_, List.mem_cons_self, hhead⟩
    · obtain ⟨x, hx, hfound⟩ := ih hy
      exact ⟨x, List.mem_cons_of_mem _ hx, hfound⟩

/-! ## Results with a world -/

namespace Act

variable {W : Type} {w w' : W}

theorem exists_of_bind_eq_ok {x : Act W α} {f : α → Act W β} {b : β}
    (h : (x >>= f).run w = (.ok b, w')) :
    ∃ a u, x.run w = (.ok a, u) ∧ (f a).run u = (.ok b, w') := by
  rw [run_bind] at h
  rcases hx : x.run w with ⟨_ | a, u⟩
  · rw [hx] at h
    cases h
  · rw [hx] at h
    exact ⟨a, u, rfl, h⟩

theorem eq_of_ofExcept {x : Except Error α} {a : α} (h : (ofExcept x).run w = (.ok a, w')) :
    x = .ok a ∧ w' = w := by
  cases x with
  | error e => cases h
  | ok a' =>
    cases h
    exact ⟨rfl, rfl⟩

theorem eq_of_pure {a b : α} (h : (pure a : Act W α).run w = (.ok b, w')) : b = a ∧ w' = w := by
  cases h
  exact ⟨rfl, rfl⟩

end Act

end Sharding
