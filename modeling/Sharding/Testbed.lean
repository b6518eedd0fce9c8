import Sharding.Keys.Generator
import Sharding.Provider.Fault
import Sharding.Provider.Memory

/-!
# Testbeds

A `Testbed` is a world for trying out logical statements: shards in memory, faults placed on them,
key generators, and the flags by which calls can be cancelled.  Workers run one after the other.
-/

namespace Sharding

/-- A world for trying out logical statements. -/
structure Testbed where
  memory : Memory
  faults : Faults := {}
  keys : KeyBank
  /-- The cancel tokens by number; a token is set when its number is in the list. -/
  cancelled : List Nat := []
  /-- The number of cancel tokens. -/
  tokens : Nat := 1

namespace Testbed

/-- The cancel token with a number. -/
def token (n : Nat) : CancelToken Testbed where
  isSet t := t.cancelled.contains n
  put b t :=
    let others := t.cancelled.filter (· ≠ n)
    { t with cancelled := if b then n :: others else others }
  isSet_put b t := by cases b <;> simp

/-- Sets every token. -/
def cancelAll (t : Testbed) : Testbed :=
  { t with cancelled := List.range t.tokens }

/-- The provider: the shards in memory under the faults placed on them. -/
def provider : Provider Testbed :=
  (Memory.provider.zoom Testbed.memory fun memory t => { t with memory }).withFaults
    (·.faults) (fun faults t => { t with faults }) cancelAll

/-- The source of keys. -/
def keySource : KeySource Testbed where
  draw number := (KeyBank.source.draw number).zoom Testbed.keys fun keys t => { t with keys }

/-- Workers run one after the other. -/
def turns (_ : Testbed) : List Nat :=
  []

end Testbed

end Sharding
