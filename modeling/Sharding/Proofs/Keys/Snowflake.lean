import Mathlib.Algebra.Order.Ring.Nat
import Sharding.Keys.Generator

/-!
# Time-ordered keys

A draw reads the clock once or more often.  `Clock.Reads` says which readings lead from one clock to
another, and `Snowflake.Draws` follows a generator through a sequence of draws, each with its
readings and its answer.

The order of the keys rests on the pair of a generator's last millisecond and its number within
that millisecond: a draw that succeeds moves to a later pair, and one that fails leaves the pair
alone (`draw_cases`).  A key is that pair and the worker written one behind the other
(`toInt_composeKey`), so later pairs have greater keys (`snowflake_keys_increase`).
-/

namespace Sharding

/-! ## Readings of a clock -/

namespace Clock

/-- Reading the first clock gives these readings one after the other and leaves the second. -/
inductive Reads : Clock → List Nat → Clock → Prop where
  | none (c : Clock) : Reads c [] c
  | more {c c' : Clock} {readings : List Nat} :
      Reads c.read.2 readings c' → Reads c (c.read.1 :: readings) c'

variable {c c' c'' : Clock} {readings readings' : List Nat}

theorem reads_read (c : Clock) : c.Reads [c.read.1] c.read.2 :=
  .more (.none _)

theorem Reads.append (h : c.Reads readings c') (h' : c'.Reads readings' c'') :
    c.Reads (readings ++ readings') c'' := by
  induction h with
  | none c => exact h'
  | more _ ih => exact .more (ih h')

/-- A run that is over does not matter. -/
theorem Reads.skip {now resume : Nat} {later : List (Nat × Nat)} {reading : Nat}
    (h : (⟨later, resume⟩ : Clock).Reads (reading :: readings) c') :
    (⟨(now, 0) :: later, resume⟩ : Clock).Reads (reading :: readings) c' := by
  cases h with
  | more h => exact .more h

/-- The number of readings so far, counted from where the clock starts to count up. -/
def age (c : Clock) : Int :=
  c.resume - (c.upcoming.map (·.2)).sum

theorem age_readFrom (resume : Nat) (upcoming : List (Nat × Nat)) :
    (readFrom resume upcoming).2.age = age ⟨upcoming, resume⟩ + 1 := by
  induction upcoming with
  | nil =>
    simp only [readFrom, age, List.map_nil, List.sum_nil]
    omega
  | cons run later ih =>
    obtain ⟨now, times⟩ := run
    cases times with
    | zero =>
      rw [readFrom, ih]
      simp only [age, List.map_cons, List.sum_cons, Nat.zero_add]
    | succ times =>
      simp only [readFrom, age, List.map_cons, List.sum_cons]
      omega

theorem age_read (c : Clock) : c.read.2.age = c.age + 1 :=
  age_readFrom c.resume c.upcoming

theorem Reads.age_eq (h : c.Reads readings c') : c'.age = c.age + readings.length := by
  induction h with
  | none c => simp
  | @more c _ _ _ ih =>
    rw [ih, age_read, List.length_cons]
    omega

/-- What was read between two clocks is determined by them. -/
theorem Reads.unique (h : c.Reads readings c') (h' : c.Reads readings' c') :
    readings = readings' := by
  induction h generalizing readings' with
  | none c =>
    have hage := h'.age_eq
    exact (List.length_eq_zero_iff.1 (by omega)).symm
  | more h ih =>
    cases h' with
    | none =>
      have hage := (Reads.more h).age_eq
      rw [List.length_cons] at hage
      omega
    | more h' => rw [ih h']

/-- A clock that counts up passes `last` at last. -/
theorem reads_countingUp (last resume : Nat) :
    ∃ earlier, (⟨[], resume⟩ : Clock).Reads (earlier ++ [max resume (last + 1)])
      ⟨[], max resume (last + 1) + 1⟩ := by
  obtain ⟨n, hn⟩ : ∃ n, last + 1 - resume = n := ⟨_, rfl⟩
  induction n generalizing resume with
  | zero =>
    have hmax : max resume (last + 1) = resume := by omega
    rw [hmax]
    exact ⟨[], reads_read ⟨[], resume⟩⟩
  | succ n ih =>
    obtain ⟨earlier, h⟩ := ih (resume + 1) (by omega)
    have hmax : max (resume + 1) (last + 1) = max resume (last + 1) := by omega
    rw [hmax] at h
    exact ⟨resume :: earlier, .more h⟩

/-- A run that does not pass `last` is read to its end. -/
theorem Reads.afterRun {resume reading : Nat} {later : List (Nat × Nat)}
    (h : (⟨later, resume⟩ : Clock).Reads (reading :: readings) c') (now times : Nat) :
    (⟨(now, times) :: later, resume⟩ : Clock).Reads
      (List.replicate times now ++ reading :: readings) c' := by
  induction times with
  | zero => exact h.skip
  | succ times ih => exact .more ih

theorem reads_readPastFrom (last resume : Nat) (upcoming : List (Nat × Nat)) :
    ∃ earlier, (⟨upcoming, resume⟩ : Clock).Reads
      (earlier ++ [(readPastFrom last resume upcoming).1]) (readPastFrom last resume upcoming).2 := by
  induction upcoming with
  | nil => exact reads_countingUp last resume
  | cons run later ih =>
    obtain ⟨now, times⟩ := run
    obtain ⟨earlier, h⟩ := ih
    obtain ⟨reading, rest, hsome⟩ := List.exists_cons_of_ne_nil
      (List.append_ne_nil_of_right_ne_nil earlier
        (List.cons_ne_nil (readPastFrom last resume later).1 []))
    have hrun := (hsome ▸ h).afterRun now times
    rw [← hsome, ← List.append_assoc] at hrun
    cases times with
    | zero => exact ⟨_, hrun⟩
    | succ times =>
      rw [readPastFrom]
      split
      · exact ⟨[], reads_read ⟨(now, times + 1) :: later, resume⟩⟩
      · exact ⟨_, hrun⟩

/-- Reading on past `last` ends with a reading behind it. -/
theorem reads_readPast (c : Clock) (last : Nat) :
    ∃ earlier, c.Reads (earlier ++ [(c.readPast last).1]) (c.readPast last).2 :=
  reads_readPastFrom last c.resume c.upcoming

end Clock

/-! ## Keys -/

theorem toNat_shiftLeft_ofNat {n : Nat} {k : UInt64} (hk : k.toNat < 64) (h : n <<< k.toNat < 2 ^ 64) :
    (UInt64.ofNat n <<< k).toNat = n <<< k.toNat := by
  have hle : n ≤ n <<< k.toNat := by
    rw [Nat.shiftLeft_eq]
    exact Nat.le_mul_of_pos_right n (Nat.two_pow_pos _)
  have hn : n < 2 ^ 64 := Nat.lt_of_le_of_lt hle h
  rw [UInt64.toNat_shiftLeft, UInt64.toNat_ofNat', Nat.mod_eq_of_lt hn, Nat.mod_eq_of_lt hk,
    Nat.mod_eq_of_lt h]

/-- A key is the time since the epoch, the worker and the number, one behind the other. -/
theorem toInt_composeKey {now workerId sequence : Nat} (hnow : now < snowflakeEpoch + 2 ^ 41)
    (hworker : workerId < 1024) (hsequence : sequence < 4096) :
    (composeKey now workerId sequence).toInt =
      ((now - snowflakeEpoch) * 2 ^ 22 + workerId * 2 ^ 12 + sequence : Nat) := by
  obtain ⟨elapsed, helapsed⟩ : ∃ elapsed, now - snowflakeEpoch = elapsed := ⟨_, rfl⟩
  have hbound : elapsed < 2 ^ 41 := by omega
  have hnumber : (UInt64.ofNat sequence).toNat = sequence := by
    rw [UInt64.toNat_ofNat']
    omega
  have hmiddle : (UInt64.ofNat workerId <<< 12).toNat = workerId <<< 12 :=
    toNat_shiftLeft_ofNat (by decide) (by rw [Nat.shiftLeft_eq]; simp; omega)
  have hhigh : (UInt64.ofNat elapsed <<< 22).toNat = elapsed <<< 22 :=
    toNat_shiftLeft_ofNat (by decide) (by rw [Nat.shiftLeft_eq]; simp; omega)
  -- the parts do not overlap, so joining them is adding them
  have hnat : (((UInt64.ofNat elapsed) <<< 22) ||| (UInt64.ofNat workerId <<< 12) |||
      UInt64.ofNat sequence).toNat = elapsed * 2 ^ 22 + workerId * 2 ^ 12 + sequence := by
    have hlow : workerId <<< 12 + sequence < 2 ^ 22 := by
      rw [Nat.shiftLeft_eq]
      omega
    rw [UInt64.toNat_or, UInt64.toNat_or, hhigh, hmiddle, hnumber, Nat.or_assoc,
      ← Nat.shiftLeft_add_eq_or_of_lt (i := 12) hsequence workerId,
      ← Nat.shiftLeft_add_eq_or_of_lt hlow,
      Nat.shiftLeft_eq, Nat.shiftLeft_eq, Nat.add_assoc]
  rw [composeKey, helapsed, ← hnat]
  refine BitVec.toInt_eq_toNat_of_lt ?_
  show 2 * (((UInt64.ofNat elapsed) <<< 22) ||| (UInt64.ofNat workerId <<< 12) |||
      UInt64.ofNat sequence).toNat < 2 ^ 64
  rw [hnat]
  omega

namespace Snowflake

/-! ## What a draw does -/

variable {g g' : Snowflake} {now : Nat} {clock : Clock} {readings : List Nat}

/-- The time of a draw is its last reading so far, and it is not before the last key. -/
theorem currentTime_ok (h : g.currentTime = (.ok now, clock)) :
    g.last ≤ now ∧ ∃ earlier, g.clock.Reads (earlier ++ [now]) clock := by
  unfold currentTime at h
  have hfirst := g.clock.reads_read
  rcases hfirstRead : g.clock.read with ⟨first, afterFirst⟩
  rw [hfirstRead] at h hfirst
  dsimp only at h
  split at h
  next hbehind =>
    split at h
    next => cases h
    next =>
      have hsecond := afterFirst.reads_read
      rcases hsecondRead : afterFirst.read with ⟨second, afterSecond⟩
      rw [hsecondRead] at h hsecond
      dsimp only at h
      split at h
      next => cases h
      next hin =>
        cases h
        exact ⟨Nat.not_lt.1 hin, [first], hfirst.append hsecond⟩
  next hin =>
    cases h
    exact ⟨Nat.not_lt.1 hin, [], hfirst⟩

/-- A draw that fails has read the clock, too. -/
theorem currentTime_error {e : Error} (h : g.currentTime = (.error e, clock)) :
    ∃ readings, g.clock.Reads readings clock := by
  unfold currentTime at h
  have hfirst := g.clock.reads_read
  rcases hfirstRead : g.clock.read with ⟨first, afterFirst⟩
  rw [hfirstRead] at h hfirst
  dsimp only at h
  split at h
  next hbehind =>
    split at h
    next =>
      cases h
      exact ⟨_, hfirst⟩
    next =>
      have hsecond := afterFirst.reads_read
      rcases hsecondRead : afterFirst.read with ⟨second, afterSecond⟩
      rw [hsecondRead] at h hsecond
      dsimp only at h
      split at h
      next =>
        cases h
        exact ⟨_, hfirst.append hsecond⟩
      next => cases h
  next => cases h

/-- The later of two states of a generator: a later millisecond, or a greater number in the same. -/
def Before (g g' : Snowflake) : Prop :=
  g.last < g'.last ∨ g.last = g'.last ∧ g.sequence < g'.sequence

/-- A key moves the generator on, to a time that is the last reading. -/
theorem advance_spec (hsequence : g.sequence < 4096) (hlast : g.last ≤ now) {earlier : List Nat}
    (hreads : g.clock.Reads (earlier ++ [now]) clock) :
    g.Before (g.advance now clock) ∧ (g.advance now clock).sequence < 4096 ∧
      (g.advance now clock).workerId = g.workerId ∧
      ∃ earlier, g.clock.Reads (earlier ++ [(g.advance now clock).last])
        (g.advance now clock).clock := by
  unfold advance
  split
  next hsame =>
    dsimp only
    split
    next hfull =>
      obtain ⟨later, hlater⟩ := clock.reads_readPast g.last
      have hpast := clock.lt_readPast g.last
      refine ⟨.inl hpast, ?_, rfl, (earlier ++ [now]) ++ later, ?_⟩
      · show (g.sequence + 1) % 4096 < 4096
        omega
      · rw [List.append_assoc]
        exact hreads.append hlater
    next hroom =>
      refine ⟨.inr ⟨rfl, ?_⟩, ?_, rfl, earlier, ?_⟩
      · show g.sequence < (g.sequence + 1) % 4096
        omega
      · show (g.sequence + 1) % 4096 < 4096
        omega
      · show g.clock.Reads (earlier ++ [g.last]) clock
        rw [← hsame]
        exact hreads
  next hother =>
    exact ⟨.inl (by show g.last < now; omega), by show 0 < 4096; omega, rfl, earlier, hreads⟩

/-- A draw either fails and changes nothing but the clock, or its key is the state that it moves on
to. -/
theorem draw_cases (hsequence : g.sequence < 4096) :
    (∃ e, g.draw.1 = .error e ∧ g.draw.2 = { g with clock := g.draw.2.clock } ∧
      ∃ readings, g.clock.Reads readings g.draw.2.clock) ∨
    g.draw.1 = .ok (composeKey g.draw.2.last g.workerId g.draw.2.sequence) ∧
      g.Before g.draw.2 ∧ g.draw.2.sequence < 4096 ∧ g.draw.2.workerId = g.workerId ∧
      ∃ earlier, g.clock.Reads (earlier ++ [g.draw.2.last]) g.draw.2.clock := by
  unfold draw
  rcases htime : g.currentTime with ⟨e | now, clock⟩
  · exact .inl ⟨e, rfl, rfl, currentTime_error htime⟩
  · obtain ⟨hlast, earlier, hreads⟩ := currentTime_ok htime
    obtain ⟨hbefore, hlow, hworker, hreadings⟩ := advance_spec hsequence hlast hreads
    refine .inr ⟨?_, hbefore, hlow, hworker, hreadings⟩
    dsimp only
    rw [hworker]

end Snowflake

/-! ## Sequences of draws -/

/-- What a draw has read and answered. -/
structure KeyDraw where
  readings : List Nat
  answer : Except Error Int64

/-- Drawing from the first generator, again and again, goes like this and leaves the second. -/
inductive Snowflake.Draws : Snowflake → List KeyDraw → Snowflake → Prop where
  | none (g : Snowflake) : Draws g [] g
  | more {g g' : Snowflake} {readings : List Nat} {draws : List KeyDraw} :
      g.clock.Reads readings g.draw.2.clock → Draws g.draw.2 draws g' →
        Draws g (⟨readings, g.draw.1⟩ :: draws) g'

/-- The keys that were drawn. -/
def KeyDraw.keys (draws : List KeyDraw) : List Int64 :=
  draws.filterMap (·.answer.toOption)

/-- The readings of a draw lie between the epoch and the last time that a key can hold. -/
def KeyDraw.InRange (d : KeyDraw) : Prop :=
  ∀ r ∈ d.readings, snowflakeEpoch ≤ r ∧ r < snowflakeEpoch + 2 ^ 41

instance (d : KeyDraw) : Decidable d.InRange :=
  inferInstanceAs (Decidable (∀ r ∈ d.readings, _))

/-- The key holds the last reading of its draw, the worker, and a number of twelve bits. -/
def KeyDraw.LaidOut (workerId : Nat) (d : KeyDraw) : Prop :=
  ∀ key, d.answer = .ok key → ∃ r sequence, d.readings.getLast? = some r ∧ sequence < 4096 ∧
    key.toInt = ((r - snowflakeEpoch) * 2 ^ 22 + workerId * 2 ^ 12 + sequence : Nat)

namespace Snowflake

variable {g g' : Snowflake} {draws : List KeyDraw}

/-- Any number of keys can be drawn, with an error or without one. -/
theorem exists_draws (hsequence : g.sequence < 4096) (n : Nat) :
    ∃ draws g', draws.length = n ∧ g.Draws draws g' := by
  induction n generalizing g with
  | zero => exact ⟨[], g, rfl, .none g⟩
  | succ n ih =>
    have hstep : g.draw.2.sequence < 4096 ∧ ∃ readings, g.clock.Reads readings g.draw.2.clock := by
      rcases draw_cases hsequence with ⟨e, -, hsame, hreads⟩ | ⟨-, -, hlow, -, earlier, hreads⟩
      · refine ⟨?_, hreads⟩
        rw [hsame]
        exact hsequence
      · exact ⟨hlow, _, hreads⟩
    obtain ⟨hlow, readings, hreads⟩ := hstep
    obtain ⟨draws, g', hlength, hdraws⟩ := ih hlow
    exact ⟨_, g', by rw [List.length_cons, hlength], .more hreads hdraws⟩

/-- The generator holds a key: its state is what some draw has moved on to. -/
structure Holds (g : Snowflake) (workerId : Nat) (key : Int64) : Prop where
  epoch : snowflakeEpoch ≤ g.last
  worker : g.workerId = workerId
  sequence : g.sequence < 4096
  key : key.toInt = ((g.last - snowflakeEpoch) * 2 ^ 22 + workerId * 2 ^ 12 + g.sequence : Nat)

/-- Later states hold greater keys. -/
theorem Holds.lt {workerId : Nat} {key key' : Int64} (h : g.Holds workerId key)
    (h' : g'.Holds workerId key') (hbefore : g.Before g') : key < key' := by
  rw [Int64.lt_iff_toInt_lt, h.key, h'.key, Int.ofNat_lt]
  have hepoch := h.epoch
  have hsequence := h.sequence
  rcases hbefore with hlast | ⟨hlast, hlater⟩
  · omega
  · rw [hlast]
    omega

theorem Before.trans {g'' : Snowflake} (h : g.Before g') (h' : g'.Before g'') : g.Before g'' := by
  unfold Before at *
  omega

/-- All keys of a sequence of draws come after the state that it starts from, the earlier ones
first. -/
theorem Draws.ordered {workerId : Nat} (hworker : workerId < 1024) (h : g.Draws draws g')
    (hown : g.workerId = workerId) (hsequence : g.sequence < 4096)
    (hrange : ∀ d ∈ draws, d.InRange) :
    (KeyDraw.keys draws).Pairwise (· < ·) ∧ (∀ d ∈ draws, d.LaidOut workerId) ∧
      ∀ key ∈ KeyDraw.keys draws, ∃ s : Snowflake, g.Before s ∧ s.Holds workerId key := by
  induction h with
  | none =>
    exact ⟨.nil, fun _ hd => absurd hd List.not_mem_nil,
      fun _ hkey => absurd hkey List.not_mem_nil⟩
  | @more g g' readings draws hreads _ ih =>
    have hrest : ∀ d ∈ draws, d.InRange := fun d hd => hrange d (List.mem_cons_of_mem _ hd)
    rcases draw_cases hsequence with ⟨e, hanswer, hsame, -⟩ |
      ⟨hanswer, hbefore, hlow, hsameWorker, earlier, hearlier⟩
    · -- nothing but the clock has changed
      rw [hsame] at ih
      obtain ⟨hkeys, hlaid, hlater⟩ := ih hown hsequence hrest
      rw [hanswer]
      refine ⟨hkeys, List.forall_mem_cons.2 ⟨fun key hkey => ?_, hlaid⟩, hlater⟩
      cases hkey
    · obtain ⟨hkeys, hlaid, hlater⟩ := ih (hsameWorker.trans hown) hlow hrest
      obtain rfl : readings = earlier ++ [g.draw.2.last] := hreads.unique hearlier
      obtain ⟨hepoch, hbound⟩ := hrange _ List.mem_cons_self g.draw.2.last
        (List.mem_append_right _ List.mem_cons_self)
      rw [hown] at hanswer
      have hkey := toInt_composeKey hbound hworker hlow
      have hholds : g.draw.2.Holds workerId (composeKey g.draw.2.last workerId g.draw.2.sequence) :=
        ⟨hepoch, hsameWorker.trans hown, hlow, hkey⟩
      rw [hanswer]
      refine ⟨List.pairwise_cons.2 ⟨fun key hmem => ?_, hkeys⟩,
        List.forall_mem_cons.2 ⟨fun key hok => ?_, hlaid⟩, List.forall_mem_cons.2
          ⟨⟨_, hbefore, hholds⟩, fun key hmem => ?_⟩⟩
      · obtain ⟨s, hs, hsHolds⟩ := hlater key hmem
        exact hholds.lt hsHolds hs
      · cases hok
        exact ⟨_, _, List.getLast?_concat, hlow, hkey⟩
      · obtain ⟨s, hs, hsHolds⟩ := hlater key hmem
        exact ⟨s, hbefore.trans hs, hsHolds⟩

end Snowflake

/-- Time-ordered keys are strictly increasing and laid out as they should be.

A generator with a worker number of ten bits is accepted, whatever its tolerance and its clock, and
any number of keys can be drawn from it.  If the readings of the draws lie between the epoch and the
last time that a key can hold, each key is greater than all earlier ones, not negative, and consists
of the last reading of its own draw, the worker, and a number of twelve bits.  A draw that fails
changes nothing but the clock. -/
theorem snowflake_keys_increase (workerId tolerance : Nat) (clock : Clock)
    (hworker : workerId ≤ maxWorkerId) :
    ∃ g, Snowflake.create workerId tolerance clock = .ok g ∧ g.clock = clock ∧
      (∀ n, ∃ draws g', draws.length = n ∧ g.Draws draws g') ∧
      (∀ draws g', g.Draws draws g' → (∀ d ∈ draws, d.InRange) →
        (KeyDraw.keys draws).Pairwise (· < ·) ∧ (∀ key ∈ KeyDraw.keys draws, 0 ≤ key) ∧
          ∀ d ∈ draws, d.LaidOut workerId) ∧
      ∀ (s : Snowflake) e s', s.draw = (.error e, s') → s' = { s with clock := s'.clock } := by
  have hlt : workerId < 1024 := Nat.lt_succ_of_le hworker
  refine ⟨⟨workerId, tolerance, clock, 0, 0⟩, if_neg (Nat.not_lt.2 hworker), rfl,
    Snowflake.exists_draws (Nat.succ_pos _), fun draws g' hdraws hrange => ?_,
    fun s e s' hfail => ?_⟩
  · obtain ⟨hkeys, hlaid, hlater⟩ := hdraws.ordered hlt rfl (Nat.succ_pos _) hrange
    refine ⟨hkeys, fun key hkey => ?_, hlaid⟩
    obtain ⟨s, -, hholds⟩ := hlater key hkey
    rw [Int64.le_iff_toInt_le, hholds.key]
    exact Int.natCast_nonneg _
  · unfold Snowflake.draw at hfail
    rcases htime : s.currentTime with ⟨e' | now, clock'⟩
    all_goals
      rw [htime] at hfail
      cases hfail
    rfl

/-- A generator whose clock stands still, steps back within the tolerance, goes on, and steps back
beyond it. -/
def steppingGenerator : Snowflake where
  workerId := 7
  tolerance := 5
  clock := .ofRuns [(snowflakeEpoch + 5, 2), (snowflakeEpoch + 3, 1), (snowflakeEpoch + 9, 1),
    (snowflakeEpoch + 2, 1), (snowflakeEpoch + 9, 1)]
  last := 0
  sequence := 0

theorem snowflake_keys_increase_stepping :
    7 ≤ maxWorkerId ∧ Snowflake.create 7 5 steppingGenerator.clock = .ok steppingGenerator ∧
      ∃ draws g', steppingGenerator.Draws draws g' ∧ (∀ d ∈ draws, d.InRange) ∧
        draws.map (·.readings.map (· - snowflakeEpoch)) = [[5], [5], [3, 9], [2], [9]] ∧
        KeyDraw.keys draws = [21000192, 21000193, 37777408, 37777409] ∧
        (KeyDraw.keys draws).Pairwise (· < ·) ∧ ∀ d ∈ draws, d.LaidOut 7 := by
  obtain ⟨g, hcreate, -, -, hkeys, -⟩ :=
    snowflake_keys_increase 7 5 steppingGenerator.clock (by decide)
  obtain rfl : steppingGenerator = g := by
    have hsame : Snowflake.create 7 5 steppingGenerator.clock = .ok steppingGenerator := rfl
    exact Except.ok.inj (hsame.symm.trans hcreate)
  have hdraws : steppingGenerator.Draws _ _ :=
    .more (.more (.none _)) <| .more (.more (.none _)) <| .more (.more (.more (.none _))) <|
      .more (.more (.none _)) <| .more (.more (.none _)) <| .none _
  obtain ⟨hincreasing, -, hlaid⟩ := hkeys _ _ hdraws (by decide)
  exact ⟨by decide, rfl, _, _, hdraws, by decide, rfl, rfl, hincreasing, hlaid⟩

end Sharding
