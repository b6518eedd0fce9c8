import Sharding.Proofs.Program.Owning

/-!
# Results of programs, read in another way

`p.finish f` makes the calls of the program `p` and ends with what `f` makes of its result.
Programs that are run at a time make the same calls when they are finished, whatever the turns are
(`interleave_finish`).

`p.endure` ends with an answer like `p.attempt`, and when `p` crashes it ends with nothing instead
of a crash.
-/

namespace Sharding

namespace Program

variable {W α β : Type}

/-- Reads the result of a program in another way. -/
def finish (f : α → Except Stop β) (p : Program W α) : Program W β :=
  p >>= fun a => done (f a)

variable {f : α → Except Stop β}

theorem run_finish (p : Program W α) (w : W) :
    (p.finish f).run w = ((p.run w).1 >>= f, (p.run w).2) := by
  rw [finish, run_bind]
  rcases p.run w with ⟨_ | _, w'⟩ <;> rfl

theorem step_finish (p : Program W α) (w : W) :
    (p.finish f).step w = ((p.step w).1.finish f, (p.step w).2) := by
  rcases p with (_ | a) | ⟨effect, next⟩
  · rfl
  · rfl
  · rfl

theorem runEach_finish (ps : List (Program W α)) (w : W) :
    runEach (ps.map (finish f)) w =
      ((runEach ps w).1.map (· >>= f), (runEach ps w).2) := by
  induction ps generalizing w with
  | nil => rfl
  | cons p ps ih =>
    rw [List.map_cons, runEach, runEach, run_finish]
    dsimp only
    rw [ih]
    rfl

/-- Finished programs make the calls of the programs. -/
theorem interleave_finish (turns : List Nat) (ps : List (Program W α)) (w : W) :
    interleave turns (ps.map (finish f)) w =
      ((interleave turns ps w).1.map (· >>= f), (interleave turns ps w).2) := by
  induction turns generalizing ps w with
  | nil => exact runEach_finish ps w
  | cons i turns ih =>
    rw [interleave, interleave, List.getElem?_map]
    cases ps[i]? with
    | none => exact ih ps w
    | some p =>
      rw [Option.map_some]
      dsimp only
      rw [step_finish, ← ih, List.map_set]

theorem finish_bind {γ : Type} (p : Program W α) (g : α → Program W β) (f : β → Except Stop γ) :
    (p >>= g).finish f = p >>= fun a => (g a).finish f :=
  bind_assoc p g _

/-! ## Crashes as values -/

/-- The result of a program or its error, as a value; nothing when it crashes. -/
def endure : Program W α → Program W (Option (Except Error α))
  | done (.ok a) => done (.ok (some (.ok a)))
  | done (.error (.error e)) => done (.ok (some (.error e)))
  | done (.error .crash) => done (.ok none)
  | call effect next => call effect fun w => (next w).endure

/-- What is missing is a crash. -/
def orCrash : Option α → Except Stop α
  | some a => .ok a
  | none => .error .crash

/-- A crash passes through an attempt. -/
theorem attempt_eq_finish (p : Program W α) : p.attempt = p.endure.finish orCrash := by
  induction p with
  | done result => rcases result with (_ | _) | _ <;> rfl
  | call effect next ih => exact congrArg (call effect) (funext ih)

variable {M : Type} [AddCommMonoid M] {holds : M → W → Prop} {m : M} {p : Program W α}

/-- The program ends with what belongs to its value, and with nothing when it fails or crashes. -/
def Leaves (held : α → M) : Post M α
  | .ok a, m => m = held a
  | .error _, m => m = 0

theorem Owns.leaves {held : α → M} (h : p.Owns holds (EndsWith held) m) :
    p.Owns holds (Leaves held) m := by
  refine h.mono ?_
  rintro ((_ | _) | _) m hm
  · exact hm
  · exact hm.elim
  · exact hm

theorem Owns.bind_leaves {mid : α → M} {held : β → M} {g : α → Program W β}
    (h : p.Owns holds (Leaves mid) m) (hrest : ∀ a, (g a).Owns holds (Leaves held) (mid a)) :
    (p >>= g).Owns holds (Leaves held) m := by
  refine h.bind ?_ fun _ _ hm => hm
  rintro a m' rfl
  exact hrest a

/-- Whatever is endured, the program ends with what belongs to its value. -/
theorem Owns.endure {held : α → M} (h : p.Owns holds (Leaves held) m) :
    p.endure.Owns holds (fun result m => ∃ reply, result = .ok reply ∧
      m = match reply with
        | some (.ok a) => held a
        | _ => 0) m := by
  induction p generalizing m with
  | done result =>
    rcases result with (_ | _) | _
    · exact ⟨_, rfl, h⟩
    · exact ⟨_, rfl, h⟩
    · exact ⟨_, rfl, h⟩
  | call effect next ih =>
    intro w f hw
    obtain ⟨m', hw', hnext⟩ := h w f hw
    exact ⟨m', hw', ih w hnext⟩

end Program

end Sharding
