import Sharding.Error

/-!
# Actions on a world

Physical calls change something outside of this library: handles are opened and closed, rows are
written, keys are drawn.  All of it is one value, the world `W`, and an action of type `Act W α`
takes a world to a new one and to a result.  The new world is there also when the action fails, so
what happened before a failure stays.

An action stops short in one of two ways.  An error is an answer, and callers look at it with
`Act.attempt`.  A crash is not: it passes through every handler, except where a worker's crash
becomes an error of its units.
-/

namespace Sharding

/-- What stops an action short. -/
inductive Stop where
  | error (e : Error)
  | crash
deriving DecidableEq

/-- A computation on the world `W`. -/
abbrev Act (W α : Type) := ExceptT Stop (StateM W) α

namespace Act

variable {W S α : Type}

/-- Runs an action. -/
def run (x : Act W α) (w : W) : Except Stop α × W :=
  StateT.run (ExceptT.run x) w

/-- An action given by what it does. -/
def ofRun (f : W → Except Stop α × W) : Act W α :=
  ExceptT.mk fun w => f w

/-- An action that answers with an error or without one. -/
def ofStep (f : W → Except Error α × W) : Act W α :=
  ofRun fun w =>
    let (r, w) := f w
    (r.mapError .error, w)

/-- An action that only changes the world. -/
def effect (f : W → W) : Act W Unit :=
  ofRun fun w => (.ok (), f w)

/-- The world as it is. -/
def world : Act W W :=
  ofRun fun w => (.ok w, w)

/-- Stops with an error. -/
def fail (e : Error) : Act W α :=
  throw (.error e)

/-- The result, or the error, of a pure computation. -/
def ofExcept : Except Error α → Act W α
  | .ok a => pure a
  | .error e => fail e

/-- The result of an action or its error, as a value.  A crash passes through. -/
def attempt (x : Act W α) : Act W (Except Error α) :=
  ofRun fun w =>
    match x.run w with
    | (.ok a, w) => (.ok (.ok a), w)
    | (.error (.error e), w) => (.ok (.error e), w)
    | (.error .crash, w) => (.error .crash, w)

/-- An action on one part of a larger world. -/
def zoom (x : Act W α) (part : S → W) (put : W → S → S) : Act S α :=
  ofRun fun s =>
    let (r, w) := x.run (part s)
    (r, put w s)

/-! ## A state beside the world

An object that changes with its calls is a state `S` beside the world, and a call on it is an action
on the pair.  Also the state stays when the call fails.
-/

/-- An action on the world alone. -/
def outside (x : Act W α) : Act (S × W) α :=
  x.zoom (·.2) fun w p => (p.1, w)

/-- The state. -/
def state : Act (S × W) S :=
  return (← world).1

/-- Changes the state. -/
def update (f : S → S) : Act (S × W) Unit :=
  ofRun fun p => (.ok (), f p.1, p.2)

/-- An action on one part of the state. -/
def within {T : Type} (part : S → T) (put : T → S → S) (x : Act (T × W) α) : Act (S × W) α :=
  x.zoom (fun p => (part p.1, p.2)) fun q p => (put q.1 p.1, q.2)

/-! ## What actions do -/

@[simp] theorem run_ofRun (f : W → Except Stop α × W) (w : W) : (ofRun f).run w = f w := rfl

@[simp] theorem run_effect (f : W → W) (w : W) : (effect f).run w = (.ok (), f w) := rfl

@[simp] theorem run_pure (a : α) (w : W) : (pure a : Act W α).run w = (.ok a, w) := rfl

@[simp] theorem run_fail (e : Error) (w : W) :
    (fail e : Act W α).run w = (.error (.error e), w) := rfl

theorem run_bind {β : Type} (x : Act W α) (f : α → Act W β) (w : W) :
    (x >>= f).run w = match x.run w with
      | (.ok a, w) => (f a).run w
      | (.error e, w) => (.error e, w) := by
  simp only [run, bind, ExceptT.bind, ExceptT.run, ExceptT.mk, StateT.run, StateT.bind]
  rcases x w with ⟨r, w'⟩
  cases r <;> rfl

end Act

end Sharding
