import Sharding.Act
import Sharding.Datum.Basic
import Sharding.Keys.Clock

/-!
# Key generators

A key generator draws the values of a generated column.  There are two kinds.

* `increment` counts up from a first key.
* `snowflake` composes a key of 64 bits: the milliseconds since its epoch, ten bits for the worker,
  and twelve bits for the keys of one millisecond.  When a millisecond's keys are used up it waits
  for the next one.  When the clock stands behind the last key it waits as long as the clock is
  behind, but no longer than it is told to tolerate; a draw that fails changes nothing but the
  clock.

Generators are shared.  `KeyBank` holds the default generator and those of single tables, and
`KeySource` is what routing knows of them: an action that draws a key from a generator.
-/

namespace Sharding

/-- 2016-11-01 in milliseconds since 1970. -/
def snowflakeEpoch : Nat := 1477958400000

/-- The largest worker number. -/
def maxWorkerId : Nat := 1023

/-- The state of a generator of time-ordered keys. -/
structure Snowflake where
  workerId : Nat
  /-- How far the clock may stand behind, in milliseconds. -/
  tolerance : Nat
  clock : Clock
  /-- The millisecond of the last key. -/
  last : Nat
  /-- The number of the last key within its millisecond. -/
  sequence : Nat
deriving DecidableEq

/-- The key of a millisecond, a worker and a number within the millisecond, in 64 bits. -/
def composeKey (now workerId sequence : Nat) : Int64 :=
  let elapsed := UInt64.ofNat (now - snowflakeEpoch)
  ((elapsed <<< 22) ||| (UInt64.ofNat workerId <<< 12) ||| UInt64.ofNat sequence).toInt64

namespace Snowflake

/-- A generator that has drawn no key yet; the worker number has to fit ten bits. -/
def create (workerId tolerance : Nat) (clock : Clock) : Except Error Snowflake :=
  if maxWorkerId < workerId then .error (.config (.generatorWorkerId workerId))
  else .ok { workerId, tolerance, clock, last := 0, sequence := 0 }

/-- A reading of the clock that does not stand behind the last key, and the clock afterwards.  A
clock that stands behind within the tolerance gets a second reading. -/
def currentTime (g : Snowflake) : Except Error Nat × Clock :=
  let (now, clock) := g.clock.read
  if now < g.last then
    let behind := g.last - now
    if g.tolerance < behind then (.error (.bug (.clockBackwards behind g.last now)), clock)
    else
      let (now, clock) := clock.read
      if now < g.last then (.error (.bug (.clockStillBehind g.last now)), clock)
      else (.ok now, clock)
  else (.ok now, clock)

/-- The generator after a key at the time `now`, which is not before the last key. -/
def advance (g : Snowflake) (now : Nat) (clock : Clock) : Snowflake :=
  if now = g.last then
    let sequence := (g.sequence + 1) % 4096
    if sequence = 0 then
      let (now, clock) := clock.readPast g.last
      { g with last := now, sequence, clock }
    else { g with sequence, clock }
  else { g with last := now, sequence := 0, clock }

/-- Draws a key. -/
def draw (g : Snowflake) : Except Error Int64 × Snowflake :=
  match g.currentTime with
  | (.error e, clock) => (.error e, { g with clock })
  | (.ok now, clock) =>
    let g := g.advance now clock
    (.ok (composeKey g.last g.workerId g.sequence), g)

end Snowflake

/-- A key generator. -/
inductive KeyGenerator where
  | increment (next : Int64)
  | snowflake (state : Snowflake)
deriving DecidableEq

namespace KeyGenerator

/-- The name of a generator's kind. -/
def name : KeyGenerator → String
  | increment _ => "increment"
  | snowflake _ => "snowflake"

/-- Draws a key. -/
def draw : KeyGenerator → Except Error Datum × KeyGenerator
  | increment next => (.ok (.int64 next), increment (next + 1))
  | snowflake state =>
    let (key, state) := state.draw
    (key.map Datum.int64, snowflake state)

/-- Draws keys one after the other until one fails. -/
def drawMany (g : KeyGenerator) : Nat → Except Error (List Datum) × KeyGenerator
  | 0 => (.ok [], g)
  | n + 1 =>
    match g.draw with
    | (.error e, g) => (.error e, g)
    | (.ok key, g) =>
      let (keys, g) := g.drawMany n
      (keys.map (key :: ·), g)

end KeyGenerator

/-- The generators of a configuration. -/
structure KeyBank where
  default : KeyGenerator
  /-- The generators of single tables, by number. -/
  ofTables : List KeyGenerator
deriving DecidableEq

namespace KeyBank

/-- The generator with a number; the default generator has none. -/
def generator (b : KeyBank) (number : Option Nat) : KeyGenerator :=
  (number.bind (b.ofTables[·]?)).getD b.default

/-- Replaces the generator with a number. -/
def put (b : KeyBank) (number : Option Nat) (g : KeyGenerator) : KeyBank :=
  match number with
  | some i => if i < b.ofTables.length then { b with ofTables := b.ofTables.set i g }
    else { b with default := g }
  | none => { b with default := g }

/-- Draws a key from the generator with a number. -/
def draw (b : KeyBank) (number : Option Nat) : Except Error Datum × KeyBank :=
  let (key, g) := (b.generator number).draw
  (key, b.put number g)

end KeyBank

/-- Where routing draws keys from: the action draws from the generator with a number, or from the
default generator. -/
structure KeySource (W : Type) where
  draw : Option Nat → Act W Datum

/-- The source of keys of a world that is a bank of generators. -/
def KeyBank.source : KeySource KeyBank where
  draw number := Act.ofStep (KeyBank.draw · number)

end Sharding
