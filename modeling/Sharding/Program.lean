import Sharding.Act

/-!
# Programs of workers

An action runs without a break.  Workers do not: between two physical calls of one worker the others
may make theirs.  A `Program` shows where the breaks are.  It is over, or it makes one call, which
is an effect on the world, and goes on in a way that depends on the world that the call met.

`Program.run` runs a program without a break.  `interleave` runs several programs at a time.  Its
`turns` say whose call is next, as long as they last; the programs that are then still running
finish one after the other.  Every way of interleaving the calls of programs that end is given by
some list of turns.
-/

namespace Sharding

/-- A computation that makes calls on the world `W`, one at a time. -/
inductive Program (W α : Type) where
  | done (result : Except Stop α)
  /-- `next` is given the world before the call. -/
  | call (effect : W → W) (next : W → Program W α)

namespace Program

variable {W α β : Type}

/-- Goes on with the result of a program, unless the program stopped short. -/
protected def bind : Program W α → (α → Program W β) → Program W β
  | done (.ok a), f => f a
  | done (.error stop), _ => done (.error stop)
  | call effect next, f => call effect fun w => (next w).bind f

instance : Monad (Program W) where
  pure a := done (.ok a)
  bind := Program.bind

/-- An action as a single call. -/
def ofAct (x : Act W α) : Program W α :=
  call (fun w => (x.run w).2) fun w => done (x.run w).1

/-- The result of a program or its error, as a value.  A crash passes through. -/
def attempt : Program W α → Program W (Except Error α)
  | done (.ok a) => done (.ok (.ok a))
  | done (.error (.error e)) => done (.ok (.error e))
  | done (.error .crash) => done (.error .crash)
  | call effect next => call effect fun w => (next w).attempt

/-- Runs a program without a break. -/
def run : Program W α → W → Except Stop α × W
  | done result, w => (result, w)
  | call effect next, w => (next w).run (effect w)

/-- A program as an action. -/
def toAct (p : Program W α) : Act W α :=
  Act.ofRun p.run

/-- Makes the next call of a program. -/
def step : Program W α → W → Program W α × W
  | done result, w => (done result, w)
  | call effect next, w => (next w, effect w)

/-- Runs programs one after the other. -/
def runEach : List (Program W α) → W → List (Except Stop α) × W
  | [], w => ([], w)
  | p :: rest, w =>
    let (result, w) := p.run w
    let (results, w) := runEach rest w
    (result :: results, w)

/-- Runs programs at a time.  A turn is the position of the program that makes the next call. -/
def interleave : (turns : List Nat) → List (Program W α) → W → List (Except Stop α) × W
  | [], ps, w => runEach ps w
  | i :: turns, ps, w =>
    match ps[i]? with
    | none => interleave turns ps w
    | some p =>
      let (p, w) := p.step w
      interleave turns (ps.set i p) w

theorem run_pure (a : α) (w : W) : (pure a : Program W α).run w = (.ok a, w) := rfl

theorem run_bind (p : Program W α) (f : α → Program W β) (w : W) :
    (p >>= f).run w = match p.run w with
      | (.ok a, w) => (f a).run w
      | (.error stop, w) => (.error stop, w) := by
  change (p.bind f).run w = _
  induction p generalizing w with
  | done result => cases result <;> rfl
  | call effect next ih => exact ih w (effect w)

end Program

end Sharding
