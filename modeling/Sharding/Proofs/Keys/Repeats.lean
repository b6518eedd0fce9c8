import Sharding.Proofs.Keys.Snowflake

/-!
# Repeated keys

A key holds the time since the epoch, and every time before the epoch counts as the epoch itself.
The numbers of a generator start again with each new reading, though.  So the keys of two times
repeat as soon as neither of them is after the epoch.

* A draw that succeeds either stays at the millisecond of the last key and takes the next number, or
  it moves on and takes the first (`Snowflake.draw_counts`).
* So the number of a key is how many keys its time has had before (`KeyDraw.numberAt`), and a run of
  draws has the keys that this gives (`Snowflake.Draws.keyed`).
* `snowflake_keys_repeat` tells from this which keys of a run are the same.
-/

namespace Sharding

namespace KeyDraw

/-- The millisecond of a draw's key. -/
def time? (d : KeyDraw) : Option Nat :=
  match d.answer with
  | .ok _ => d.readings.getLast?
  | .error _ => none

/-- The number of the next key at a time, which is the number of its keys so far.  A new generator
stands at the time 0 as if it had drawn a key there. -/
def numberAt (earlier : List KeyDraw) (time : Nat) : Nat :=
  earlier.countP (·.time? = some time) + if time = 0 then 1 else 0

theorem time?_of_ok {readings : List Nat} {key : Int64} :
    time? ⟨readings, .ok key⟩ = readings.getLast? :=
  rfl

theorem time?_of_error {readings : List Nat} {e : Error} : time? ⟨readings, .error e⟩ = none :=
  rfl

theorem answer_of_toOption {d : KeyDraw} {key : Int64} (h : d.answer.toOption = some key) :
    d.answer = .ok key := by
  cases hanswer : d.answer with
  | error e =>
    rw [hanswer] at h
    cases h
  | ok k =>
    rw [hanswer] at h
    cases h
    rfl

/-- One more draw adds one to the number at its own time. -/
theorem numberAt_concat (earlier : List KeyDraw) (d : KeyDraw) (time : Nat) :
    numberAt (earlier ++ [d]) time =
      numberAt earlier time + if d.time? = some time then 1 else 0 := by
  unfold numberAt
  rw [List.countP_append, List.countP_singleton]
  simp only [decide_eq_true_eq]
  omega

/-- A time has more keys after a draw at that time. -/
theorem numberAt_lt {earlier middle : List KeyDraw} {d : KeyDraw} {time : Nat}
    (h : d.time? = some time) :
    numberAt earlier time < numberAt (earlier ++ d :: middle) time := by
  unfold numberAt
  rw [List.countP_append, List.countP_cons_of_pos (by simpa using h)]
  omega

end KeyDraw

/-! ## Numbers of keys -/

namespace Snowflake

open KeyDraw

variable {g g' : Snowflake} {now : Nat} {clock : Clock} {draws earlier : List KeyDraw}

/-- The last key of a generator is the last of the keys at its time, and no later time has any. -/
structure Numbers (g : Snowflake) (earlier : List KeyDraw) : Prop where
  low : g.sequence < 4096
  last : numberAt earlier g.last = g.sequence + 1
  later : ∀ time, g.last < time → numberAt earlier time = 0

/-- A key either has the next number of the last millisecond, or is the first of a later one. -/
theorem advance_counts (hsequence : g.sequence < 4096) (hlast : g.last ≤ now) :
    (g.advance now clock).last = g.last ∧ (g.advance now clock).sequence = g.sequence + 1 ∨
      g.last < (g.advance now clock).last ∧ (g.advance now clock).sequence = 0 := by
  unfold advance
  split
  next hsame =>
    dsimp only
    split
    next hfull => exact .inr ⟨clock.lt_readPast g.last, hfull⟩
    next hroom =>
      refine .inl ⟨rfl, ?_⟩
      show (g.sequence + 1) % 4096 = g.sequence + 1
      omega
  next hother => exact .inr ⟨by show g.last < now; omega, rfl⟩

theorem draw_counts (hsequence : g.sequence < 4096) {key : Int64} (h : g.draw.1 = .ok key) :
    g.draw.2.last = g.last ∧ g.draw.2.sequence = g.sequence + 1 ∨
      g.last < g.draw.2.last ∧ g.draw.2.sequence = 0 := by
  unfold draw at h ⊢
  rcases htime : g.currentTime with ⟨e | now, clock⟩
  · rw [htime] at h
    cases h
  · exact advance_counts hsequence (currentTime_ok htime).1

/-- A new generator has drawn no keys. -/
theorem numbers_create (workerId tolerance : Nat) (clock : Clock) :
    Numbers ⟨workerId, tolerance, clock, 0, 0⟩ [] where
  low := Nat.succ_pos 4095
  last := rfl
  later time h := by
    have hne : time ≠ 0 := by
      rintro rfl
      exact absurd h (Nat.lt_irrefl 0)
    rw [numberAt, List.countP_nil, if_neg hne]

/-- A draw that fails leaves the numbers as they are. -/
theorem Numbers.draw_error (h : g.Numbers earlier) {e : Error} {readings : List Nat}
    (hanswer : g.draw.1 = .error e) (hsame : g.draw.2 = { g with clock := g.draw.2.clock }) :
    g.draw.2.Numbers (earlier ++ [⟨readings, g.draw.1⟩]) := by
  have hnumber : ∀ time, numberAt (earlier ++ [⟨readings, g.draw.1⟩]) time =
      numberAt earlier time := by
    intro time
    rw [numberAt_concat, hanswer, time?_of_error]
    rfl
  rw [hsame]
  refine ⟨h.low, (hnumber _).trans h.last, fun time htime => ?_⟩
  exact (hnumber time).trans (h.later time htime)

/-- A draw that succeeds takes the number that is next at its time. -/
theorem Numbers.draw_ok (h : g.Numbers earlier) {key : Int64} {readings : List Nat}
    (hanswer : g.draw.1 = .ok key) (hlow : g.draw.2.sequence < 4096)
    (htime : readings.getLast? = some g.draw.2.last) :
    g.draw.2.sequence = numberAt earlier g.draw.2.last ∧
      g.draw.2.Numbers (earlier ++ [⟨readings, g.draw.1⟩]) := by
  have hnumber : g.draw.2.sequence = numberAt earlier g.draw.2.last := by
    rcases draw_counts h.low hanswer with ⟨hlast, hnext⟩ | ⟨hlast, hfirst⟩
    · rw [hlast, h.last, hnext]
    · rw [h.later _ hlast, hfirst]
  refine ⟨hnumber, hlow, ?_, fun time hlater => ?_⟩
  · rw [numberAt_concat, hanswer, time?_of_ok, htime, if_pos rfl, ← hnumber]
  · have hbefore : g.last < time := by
      rcases draw_counts h.low hanswer with ⟨hlast, -⟩ | ⟨hlast, -⟩ <;> omega
    have hne : some g.draw.2.last ≠ some time := fun heq =>
      Nat.ne_of_lt hlater (Option.some.inj heq)
    rw [numberAt_concat, hanswer, time?_of_ok, htime, if_neg hne, h.later time hbefore]

/-- Each key of a run is made of its time, the worker, and the number of keys that its time has had
before. -/
theorem Draws.keyed (h : g.Draws draws g') (hnumbers : g.Numbers earlier)
    {before after : List KeyDraw} {d : KeyDraw} (hdraws : draws = before ++ d :: after)
    {key : Int64} (hkey : d.answer = .ok key) :
    ∃ time, d.time? = some time ∧ time ∈ d.readings ∧ numberAt (earlier ++ before) time < 4096 ∧
      key = composeKey time g.workerId (numberAt (earlier ++ before) time) := by
  induction h generalizing earlier before with
  | none g =>
    cases before <;> cases hdraws
  | @more g g' readings draws hreads _ ih =>
    -- the first draw, with the numbers that come after it
    have hstep : g.draw.2.Numbers (earlier ++ [⟨readings, g.draw.1⟩]) ∧
        g.draw.2.workerId = g.workerId ∧ ∀ key, g.draw.1 = .ok key →
          readings.getLast? = some g.draw.2.last ∧ g.draw.2.last ∈ readings ∧
            numberAt earlier g.draw.2.last < 4096 ∧
            key = composeKey g.draw.2.last g.workerId (numberAt earlier g.draw.2.last) := by
      rcases draw_cases hnumbers.low with ⟨e, hanswer, hsame, -⟩ |
        ⟨hanswer, -, hlow, hworker, firsts, hfirsts⟩
      · refine ⟨hnumbers.draw_error hanswer hsame, by rw [hsame], fun key hok => ?_⟩
        rw [hanswer] at hok
        cases hok
      · obtain rfl : readings = firsts ++ [g.draw.2.last] := hreads.unique hfirsts
        obtain ⟨hnumber, hnext⟩ := hnumbers.draw_ok hanswer hlow List.getLast?_concat
        refine ⟨hnext, hworker, fun key hok => ?_⟩
        rw [hanswer] at hok
        cases hok
        rw [← hnumber]
        exact ⟨List.getLast?_concat, List.mem_append_right _ List.mem_cons_self, hlow, rfl⟩
    obtain ⟨hnext, hworker, hfirst⟩ := hstep
    cases before with
    | nil =>
      cases hdraws
      obtain ⟨hlast, hmem, hlow, hcomposed⟩ := hfirst key hkey
      rw [List.append_nil]
      refine ⟨_, ?_, hmem, hlow, hcomposed⟩
      show time? ⟨readings, g.draw.1⟩ = _
      rw [show g.draw.1 = .ok key from hkey, time?_of_ok, hlast]
    | cons b before =>
      cases hdraws
      obtain ⟨time, htime, hmem, hlow, hcomposed⟩ := ih hnext rfl
      rw [List.append_assoc, List.singleton_append] at hlow hcomposed
      rw [hworker] at hcomposed
      exact ⟨time, htime, hmem, hlow, hcomposed⟩

end Snowflake

/-- Keys of one worker are the same if their times are as long after the epoch and their numbers are
the same. -/
theorem composeKey_eq_iff {time time' workerId number number' : Nat}
    (htime : time < snowflakeEpoch + 2 ^ 41) (htime' : time' < snowflakeEpoch + 2 ^ 41)
    (hworker : workerId < 1024) (hnumber : number < 4096) (hnumber' : number' < 4096) :
    composeKey time workerId number = composeKey time' workerId number' ↔
      time - snowflakeEpoch = time' - snowflakeEpoch ∧ number = number' := by
  rw [← Int64.toInt_inj, toInt_composeKey htime hworker hnumber,
    toInt_composeKey htime' hworker hnumber', Int.natCast_inj]
  omega

/-- Two keys of a run are the same when their times count as one and have had as many keys
before. -/
theorem Snowflake.Draws.keys_eq_iff {g g' : Snowflake} {draws : List KeyDraw}
    (h : g.Draws draws g') (hnumbers : g.Numbers []) (hworker : g.workerId < 1024)
    (hrange : ∀ d ∈ draws, ∀ r ∈ d.readings, r < snowflakeEpoch + 2 ^ 41)
    {first middle last : List KeyDraw} {d d' : KeyDraw} {key key' : Int64}
    (hsplit : draws = first ++ d :: (middle ++ d' :: last)) (hkey : d.answer = .ok key)
    (hkey' : d'.answer = .ok key') :
    key = key' ↔ ∃ time time', d.time? = some time ∧ d'.time? = some time' ∧ time ≠ time' ∧
      time ≤ snowflakeEpoch ∧ time' ≤ snowflakeEpoch ∧
      KeyDraw.numberAt first time = KeyDraw.numberAt (first ++ d :: middle) time' := by
  obtain ⟨time, htime, hread, hlow, rfl⟩ := h.keyed hnumbers hsplit hkey
  have hsplit' : draws = (first ++ d :: middle) ++ d' :: last := by
    rw [hsplit, List.append_assoc, List.cons_append]
  obtain ⟨time', htime', hread', hlow', rfl⟩ := h.keyed hnumbers hsplit' hkey'
  rw [List.nil_append] at hlow hlow'
  have hbound := hrange d (by rw [hsplit]; simp) time hread
  have hbound' := hrange d' (by rw [hsplit]; simp) time' hread'
  rw [List.nil_append, List.nil_append, composeKey_eq_iff hbound hbound' hworker hlow hlow']
  constructor
  · rintro ⟨helapsed, hnumber⟩
    have hne : time ≠ time' := by
      rintro rfl
      exact absurd hnumber (Nat.ne_of_lt (KeyDraw.numberAt_lt htime))
    exact ⟨time, time', htime, htime', hne, by omega, by omega, hnumber⟩
  · rintro ⟨t, t', ht, ht', -, hle, hle', hnumber⟩
    cases htime.symm.trans ht
    cases htime'.symm.trans ht'
    exact ⟨by omega, hnumber⟩

/-- A relation holds pairwise if it holds of any two elements of a list that stand one behind the
other. -/
theorem pairwise_of_forall_split {α : Type} {R : α → α → Prop} {xs : List α}
    (h : ∀ first a middle b last, xs = first ++ a :: (middle ++ b :: last) → R a b) :
    xs.Pairwise R := by
  induction xs with
  | nil => exact .nil
  | cons x xs ih =>
    refine List.pairwise_cons.2 ⟨fun b hb => ?_, ih fun first a middle b last hxs => ?_⟩
    · obtain ⟨middle, last, rfl⟩ := List.append_of_mem hb
      exact h [] x middle b last rfl
    · exact h (x :: first) a middle b last (congrArg (x :: ·) hxs)

/-- Which keys of a generator are the same, whatever its clock reads.

A generator with a worker number of ten bits is accepted.  As long as its clock reads no time that
is too late for a key, two of its keys are the same exactly when their times differ, neither of them
is after the epoch, and each time has had as many keys before.  So no key repeats if all keys of
times up to the epoch are of one time. -/
theorem snowflake_keys_repeat (workerId tolerance : Nat) (clock : Clock)
    (hworker : workerId ≤ maxWorkerId) :
    ∃ g, Snowflake.create workerId tolerance clock = .ok g ∧
      ∀ draws g', g.Draws draws g' →
        (∀ d ∈ draws, ∀ r ∈ d.readings, r < snowflakeEpoch + 2 ^ 41) →
        (∀ first d middle d' last key key', draws = first ++ d :: (middle ++ d' :: last) →
          d.answer = .ok key → d'.answer = .ok key' →
          (key = key' ↔ ∃ time time', d.time? = some time ∧ d'.time? = some time' ∧ time ≠ time' ∧
            time ≤ snowflakeEpoch ∧ time' ≤ snowflakeEpoch ∧
            KeyDraw.numberAt first time = KeyDraw.numberAt (first ++ d :: middle) time')) ∧
        ((∀ d ∈ draws, ∀ d' ∈ draws, ∀ time ∈ d.time?, ∀ time' ∈ d'.time?,
            time ≤ snowflakeEpoch → time' ≤ snowflakeEpoch → time = time') →
          (KeyDraw.keys draws).Nodup) := by
  have hlt : workerId < 1024 := Nat.lt_succ_of_le hworker
  have hnumbers := Snowflake.numbers_create workerId tolerance clock
  refine ⟨⟨workerId, tolerance, clock, 0, 0⟩, if_neg (Nat.not_lt.2 hworker),
    fun draws g' hdraws hrange => ⟨fun first d middle d' last key key' =>
      hdraws.keys_eq_iff hnumbers hlt hrange, fun hone => ?_⟩⟩
  have hpairwise : draws.Pairwise fun d d' => ∀ key key', d.answer = .ok key →
      d'.answer = .ok key' → key ≠ key' := by
    refine pairwise_of_forall_split fun first d middle d' last hsplit key key' hkey hkey' heq => ?_
    obtain ⟨time, time', htime, htime', hne, hle, hle', -⟩ :=
      (hdraws.keys_eq_iff hnumbers hlt hrange hsplit hkey hkey').1 heq
    exact hne (hone d (by rw [hsplit]; simp) d' (by rw [hsplit]; simp) time htime time' htime' hle
      hle')
  exact hpairwise.filterMap _ fun d d' hdiffer key hkey key' hkey' =>
    hdiffer key key' (KeyDraw.answer_of_toOption hkey) (KeyDraw.answer_of_toOption hkey')

/-- A generator whose clock stands still before the epoch, goes on to just before it and then passes
it. -/
def earlyGenerator : Snowflake where
  workerId := 7
  tolerance := 5
  clock := .ofRuns [(snowflakeEpoch - 3, 2), (snowflakeEpoch - 1, 1), (snowflakeEpoch + 1, 1)]
  last := 0
  sequence := 0

/-- The first keys of the two times before the epoch are the same, and no others. -/
theorem snowflake_keys_repeat_early :
    7 ≤ maxWorkerId ∧ Snowflake.create 7 5 earlyGenerator.clock = .ok earlyGenerator ∧
      ∃ draws g', earlyGenerator.Draws draws g' ∧
        (∀ d ∈ draws, ∀ r ∈ d.readings, r < snowflakeEpoch + 2 ^ 41) ∧
        ∃ a b c e, draws.map (·.answer) = [.ok a, .ok b, .ok c, .ok e] ∧ a = c ∧ b ≠ c ∧ c ≠ e := by
  obtain ⟨g, hcreate, hkeys⟩ := snowflake_keys_repeat 7 5 earlyGenerator.clock (by decide)
  obtain rfl : earlyGenerator = g := by
    have hsame : Snowflake.create 7 5 earlyGenerator.clock = .ok earlyGenerator := rfl
    exact Except.ok.inj (hsame.symm.trans hcreate)
  have hdraws : earlyGenerator.Draws _ _ :=
    .more (.more (.none _)) <| .more (.more (.none _)) <| .more (.more (.none _)) <|
      .more (.more (.none _)) <| .none _
  have hrepeat := (hkeys _ _ hdraws (by decide)).1
  refine ⟨by decide, rfl, _, _, hdraws, by decide, _, _, _, _, rfl, ?_, ?_, ?_⟩
  · refine (hrepeat [] _ [_] _ [_] _ _ rfl rfl rfl).2 ⟨_, _, rfl, rfl, ?_, ?_, ?_, ?_⟩ <;> decide
  · intro heq
    obtain ⟨time, time', htime, htime', -, -, -, hnumber⟩ :=
      (hrepeat [_] _ [] _ [_] _ _ rfl rfl rfl).1 heq
    cases htime
    cases htime'
    exact absurd hnumber (by decide)
  · intro heq
    obtain ⟨time, time', htime, htime', -, -, hle, -⟩ :=
      (hrepeat [_, _] _ [] _ [] _ _ rfl rfl rfl).1 heq
    cases htime'
    exact absurd hle (by decide)

/-- A clock that counts up from 1 has the first two keys repeat. -/
theorem keys_repeat_before_epoch :
    ∃ g draws g', Snowflake.create 0 0 (.ofRuns [(1, 1), (2, 1)]) = .ok g ∧ g.Draws draws g' ∧
      (∀ d ∈ draws, ∀ r ∈ d.readings, r < snowflakeEpoch + 2 ^ 41) ∧
      draws.map (·.readings) = [[1], [2]] ∧ KeyDraw.keys draws = [0, 0] ∧
      ¬ (KeyDraw.keys draws).Nodup :=
  ⟨_, _, _, rfl, .more (.more (.none _)) (.more (.more (.none _)) (.none _)), by decide, rfl, rfl,
    by decide⟩

end Sharding
