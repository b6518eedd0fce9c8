import Sharding.Proofs.Results

/-!
# Strict operations

The functions of this library are total.  An element at a position past the end is no element, and
a remainder by zero is the number itself.  A strict operation crashes there instead: `elementAt`
past the end of a list, and `remainder` by zero.

A function written with strict operations that agrees with the total one on all arguments never
meets such a case.  Its results are those of `routed`: values, and errors with a routing cause.
-/

namespace Sharding

variable {ε ε' α β : Type}

/-- The element of a list at a position. -/
def elementAt (xs : List α) (i : Nat) : Except Stop α :=
  match xs[i]? with
  | some x => .ok x
  | none => .error .crash

theorem elementAt_eq {xs : List α} {i : Nat} {x : α} (h : xs[i]? = some x) :
    elementAt xs i = .ok x := by
  rw [elementAt, h]

/-- The remainder of an integer by a number, which is never negative. -/
def remainder (v : Int) (n : Nat) : Except Stop Nat :=
  if n = 0 then .error .crash else .ok (v % (n : Int)).toNat

theorem remainder_eq (v : Int) {n : Nat} (h : 0 < n) :
    remainder v n = .ok (v % (n : Int)).toNat :=
  if_neg (by omega)

/-! ## Errors of another type -/

theorem mapError_bind (g : ε → ε') (x : Except ε α) (f : α → Except ε β) :
    (x >>= f).mapError g = x.mapError g >>= fun a => (f a).mapError g := by
  cases x <;> rfl

theorem mapError_mapM (g : ε → ε') (f : α → Except ε β) (xs : List α) :
    (xs.mapM f).mapError g = xs.mapM fun x => (f x).mapError g := by
  induction xs with
  | nil => rfl
  | cons x xs ih =>
    rw [List.mapM_cons, List.mapM_cons, mapError_bind, ← ih]
    refine bind_congr fun y => ?_
    rw [mapError_bind]
    rfl

/-- A result that can fail for a routing cause, as that of an action. -/
def routed (x : Except RoutingCause α) : Except Stop α :=
  x.mapError fun cause => .error (.routing cause)

@[simp] theorem routed_ok (a : α) : routed (.ok a) = .ok a := rfl

@[simp] theorem routed_error (cause : RoutingCause) :
    routed (.error cause : Except RoutingCause α) = .error (.error (.routing cause)) := rfl

theorem routed_bind (x : Except RoutingCause α) (f : α → Except RoutingCause β) :
    routed (x >>= f) = routed x >>= fun a => routed (f a) :=
  mapError_bind _ x f

theorem routed_eq (x : Except RoutingCause α) :
    routed x = (x.mapError Error.routing).mapError Stop.error := by
  cases x <;> rfl

end Sharding
