/-!
# Integers of 128 bits

`Int128` is an integer together with the proof that it fits 128 bits in two's complement.  There
are two ways in: `Int128.ofInt?` refuses what does not fit, and `Int128.wrap` keeps the low 128
bits.  The two agree on everything that fits (`wrap_of_fits`).
-/

namespace Sharding

/-- An integer from minus `2 ^ 127` up to, but not including, `2 ^ 127`. -/
structure Int128 where
  toInt : Int
  lower : -170141183460469231731687303715884105728 ≤ toInt := by omega
  upper : toInt < 170141183460469231731687303715884105728 := by omega
deriving DecidableEq

namespace Int128

/-- The range of `Int128`. -/
def Fits (n : Int) : Prop :=
  -170141183460469231731687303715884105728 ≤ n ∧ n < 170141183460469231731687303715884105728

instance (n : Int) : Decidable (Fits n) :=
  inferInstanceAs (Decidable (_ ∧ _))

/-- The integer `n`, if it fits. -/
def ofInt? (n : Int) : Option Int128 :=
  if h : Fits n then some ⟨n, h.1, h.2⟩ else none

/-- The low 128 bits of `n`. -/
def wrap (n : Int) : Int128 where
  toInt := n.bmod 340282366920938463463374607431768211456
  lower := by
    have h : (0 : Nat) < 340282366920938463463374607431768211456 := by decide
    have := @Int.le_bmod n _ h
    omega
  upper := by
    have h : (0 : Nat) < 340282366920938463463374607431768211456 := by decide
    have := @Int.bmod_lt n _ h
    omega

instance : Inhabited Int128 := ⟨wrap 0⟩

/-- A tenth of the number, rounded down. -/
def tenth (m : Int128) : Int128 where
  toInt := m.toInt / 10
  lower := by have := m.lower; omega
  upper := by have := m.upper; omega

@[ext] theorem ext {a b : Int128} (h : a.toInt = b.toInt) : a = b := by
  cases a; cases b; simp_all

theorem ofInt?_eq_some {n : Int} {m : Int128} : ofInt? n = some m ↔ m.toInt = n := by
  unfold ofInt?
  split
  · rename_i h
    constructor
    · intro e; injection e with e; rw [← e]
    · intro e; exact congrArg some (ext e.symm)
  · rename_i h
    constructor
    · intro e; cases e
    · intro e; exact absurd ⟨e ▸ m.lower, e ▸ m.upper⟩ h

theorem wrap_of_fits {n : Int} (h : Fits n) : (wrap n).toInt = n := by
  obtain ⟨h1, h2⟩ := h
  exact Int.bmod_eq_of_le (by omega) (by omega)

@[simp] theorem wrap_toInt (m : Int128) : wrap m.toInt = m :=
  ext (wrap_of_fits ⟨m.lower, m.upper⟩)

end Int128

end Sharding
