import Mathlib.Algebra.GroupWithZero.Nat
import Sharding.Proofs.Provider.MemoryLedger

/-!
# Keys of the provider in memory

A shard in memory takes the keys of an execution one after the other, and the next execution goes on
where they end.

* `Memory.Takes` says what a call takes of the keys of a shard, and `MemoryCall.takes` has it for
  every call that does not lay down the next key.
* So the keys in an account are the ones that follow its start, one for each affected row
  (`KeyAccount.Agrees.note`), and they are consecutive integers while they stay within the range of
  the keys (`KeyAccount.consecutive`).
* `Memory.counts_and_keys_of_calls` puts this together with the handles of a ledger, for all calls
  on a new provider.
-/

namespace Sharding

/-! ## The next key -/

namespace Memory

variable {m m' : Memory} {shard name : String} {n : Nat}

/-- The next key of a shard.  A shard that is not there yet will start with one. -/
def nextKey (m : Memory) (shard : String) : Int64 :=
  ((m.shard? shard).map (·.nextKey)).getD 1

theorem nextKey_of_shards (h : m'.shards = m.shards) (shard : String) :
    m'.nextKey shard = m.nextKey shard := by
  unfold nextKey
  rw [shard?_of_shards h]

theorem shard?_addShard_self (m : Memory) (name : String) :
    ∃ s, (m.addShard name).shard? name = some s := by
  refine Option.isSome_iff_exists.1 (List.find?_isSome.2 ?_)
  unfold addShard
  split
  · rename_i hany
    exact List.any_eq_true.1 hany
  · exact ⟨{ name }, List.mem_append_right _ (List.mem_singleton_self _), beq_self_eq_true name⟩

theorem nextKey_addShard (m : Memory) (name shard : String) :
    (m.addShard name).nextKey shard = m.nextKey shard := by
  unfold addShard
  split
  · rfl
  · unfold nextKey shard?
    rw [List.find?_append]
    cases m.shards.find? (·.name == shard) with
    | some s => rfl
    | none => cases hname : name == shard <;> simp [hname]

/-- A shard whose next key is left alone. -/
theorem nextKey_modifyShard_of_same (m : Memory) {f : MemoryShard → MemoryShard}
    (hname : ∀ s, s.name = name → (f s).name = name)
    (hkey : name = shard → ∀ s, (f s).nextKey = s.nextKey) :
    (m.modifyShard name f).nextKey shard = m.nextKey shard := by
  unfold nextKey
  rw [shard?_modifyShard m name shard hname, Option.map_map]
  refine congrArg (fun key : Option Int64 => key.getD 1) (Option.map_congr fun s hs => ?_)
  rw [Function.comp_apply]
  split
  · rename_i hs'
    exact hkey ((eq_of_beq hs').symm.trans (name_of_shard? hs)) s
  · rfl

theorem nextKey_modifyShard_self {f : MemoryShard → MemoryShard} {s : MemoryShard}
    (hname : ∀ s, s.name = shard → (f s).name = shard) (hs : m.shard? shard = some s) :
    (m.modifyShard shard f).nextKey shard = (f s).nextKey := by
  unfold nextKey
  rw [shard?_modifyShard m shard shard hname, hs, Option.map_some,
    if_pos (beq_iff_eq.2 (name_of_shard? hs))]
  rfl

theorem nextKey_configure (m : Memory) {f : MemoryShard → MemoryShard}
    (hname : ∀ s, (f s).name = s.name) (hkey : name = shard → ∀ s, (f s).nextKey = s.nextKey) :
    (m.configure name f).nextKey shard = m.nextKey shard :=
  (nextKey_modifyShard_of_same _ (fun s hs => (hname s).trans hs) hkey).trans
    (nextKey_addShard m name shard)

/-- What is laid down is the next key. -/
theorem nextKey_setNextKey (m : Memory) (shard : String) (key : Int64) :
    (m.configure shard fun s => { s with nextKey := key }).nextKey shard = key := by
  obtain ⟨s, hs⟩ := shard?_addShard_self m shard
  exact nextKey_modifyShard_self (fun s hs => hs) hs

theorem nextKey_ofShards (names : List String) (shard : String) :
    (Memory.ofShards names).nextKey shard = 1 := by
  have hfold : ∀ m : Memory, (names.foldl addShard m).nextKey shard = m.nextKey shard := by
    induction names with
    | nil => exact fun m => rfl
    | cons name names ih => exact fun m => (ih _).trans (nextKey_addShard m name shard)
  exact hfold {}

/-! ## Keys that are taken -/

/-- As many keys as `count`, from the first on. -/
def keysFrom (first : Int64) (count : Nat) : List Datum :=
  (List.range count).map fun i => .int64 (first + Int64.ofNat i)

theorem keysFrom_add (first : Int64) (count more : Nat) :
    keysFrom first (count + more) =
      keysFrom first count ++ keysFrom (first + Int64.ofNat count) more := by
  unfold keysFrom
  rw [List.range_add, List.map_append, List.map_map]
  refine congrArg (_ ++ ·) (List.map_congr_left fun i _ => ?_)
  rw [Function.comp_apply, Int64.ofNat_add, Int64.add_assoc]

/-- Of a shard, as many keys are taken as there are rows, from the next one on. -/
structure Takes (shard : String) (rows : Nat) (keys : List Datum) (m m' : Memory) : Prop where
  keys : keys = keysFrom (m.nextKey shard) rows
  nextKey : m'.nextKey shard = m.nextKey shard + Int64.ofNat rows

theorem takes_nothing (h : m'.nextKey shard = m.nextKey shard) : Takes shard 0 [] m m' :=
  ⟨rfl, h.trans (Int64.add_zero _).symm⟩

/-- What happens to the rest of the memory before and after is of no account. -/
theorem Takes.of_shards {rows : Nat} {keys : List Datum} {before after : Memory}
    (h : Takes shard rows keys m m') (hbefore : m.shards = before.shards)
    (hafter : after.shards = m'.shards) : Takes shard rows keys before after where
  keys := by rw [h.keys, nextKey_of_shards hbefore]
  nextKey := by rw [nextKey_of_shards hafter, h.nextKey, nextKey_of_shards hbefore]

/-- The keys of a shard that is there, while their number is one of the range of the keys. -/
theorem takes_takeKeys {s : MemoryShard} {count : UInt64} (hs : m.shard? shard = some s)
    (hcount : count.toNat < 2 ^ 63) :
    Takes shard count.toNat (m.takeKeys shard count).1 m (m.takeKeys shard count).2 := by
  have hint : count.toInt64 = Int64.ofNat count.toNat := congrArg UInt64.toInt64
    (UInt64.ofNat_toNat (x := count)).symm
  have hnat : count.toInt64.toInt.toNat = count.toNat := by
    rw [hint, Int64.toInt_ofNat_of_lt hcount, Int.toNat_natCast]
  have hnext : m.nextKey shard = s.nextKey := by rw [nextKey, hs]; rfl
  have hname : s.name = shard := name_of_shard? hs
  simp only [takeKeys, hs]
  constructor
  · rw [hnext, ← hnat]
    rfl
  · rw [nextKey_modifyShard_self (f := fun _ => (s.takeKeys count).2) (fun _ _ => hname) hs, hnext,
      ← hint]
    rfl

/-- The keys of another shard. -/
theorem nextKey_takeKeys_of_ne (m : Memory) (count : UInt64) (h : name ≠ shard) :
    (m.takeKeys name count).2.nextKey shard = m.nextKey shard := by
  unfold takeKeys
  cases hs : m.shard? name with
  | none => rfl
  | some s =>
    have hname : s.name = name := name_of_shard? hs
    exact nextKey_modifyShard_of_same m (fun _ _ => hname) fun hshard => (h hshard).elim

/-! ## Executions -/

/-- What an action on a statement answers, in the cases of the statement. -/
theorem answering_onOpen {α : Type} (reply : α → MemoryReply)
    (call : MemoryStatement → Memory → Except Error α × Memory) (m : Memory) (n : Nat) :
    (∃ s, m.statements[n]? = some s ∧ s.closed = false ∧
      answering reply (onOpen n call) m =
        (((call s m).1.mapError Stop.error).map reply, (call s m).2)) ∨
    ((∀ shard, m.keyed? shard n = none) ∧
      ∃ e, answering reply (onOpen n call) m = (.error (.error e), m)) := by
  unfold answering onOpen keyed?
  rw [Act.ofStep, Act.run_ofRun]
  cases m.statements[n]? with
  | none => exact .inr ⟨fun _ => rfl, _, rfl⟩
  | some s =>
    cases hclosed : s.closed with
    | true => exact .inr ⟨fun _ => by simp [hclosed], _, by simp [hclosed]; rfl⟩
    | false => exact .inl ⟨s, rfl, hclosed, by simp [hclosed]⟩

theorem keyed?_of_open {s : MemoryStatement} (hs : m.statements[n]? = some s)
    (hopen : s.closed = false) (shard : String) :
    m.keyed? shard n =
      if s.shard = shard then
        ((m.respond s).toOption.bind Response.keyed?).map fun affected => (s, affected)
      else none := by
  unfold keyed?
  by_cases hshard : s.shard = shard <;> simp [hs, hopen, hshard]

theorem keyed?_eq_none {s : MemoryStatement} (hs : m.statements[n]? = some s)
    (hopen : s.closed = false) (h : (m.respond s).toOption.bind Response.keyed? = none)
    (shard : String) : m.keyed? shard n = none := by
  rw [keyed?_of_open hs hopen, h, Option.map_none, ite_self]

/-- Of a statement that is run by itself, the affected rows are reported.  Every other response
leaves the shards as they are. -/
def Runs (m : Memory) (n : Nat) (result : Except Stop MemoryReply × Memory) : Prop :=
  (∃ s operation affected nativeKeys, m.statements[n]? = some s ∧ s.closed = false ∧
    m.respond s = .ok (.update affected nativeKeys) ∧
    let report := (m.record s operation [s.params]).report s affected nativeKeys
    result = (.ok (.outcome (.update report.1)), report.2)) ∨
  ((∀ shard, m.keyed? shard n = none) ∧ result.2.shards = m.shards ∧
    ∀ shard, m.reportedKeys shard n result.1 = [])

/-- An action that runs a statement, from what it does with each response. -/
theorem runs_onOpen {α : Type} {reply : α → MemoryReply}
    {call : MemoryStatement → Memory → Except Error α × Memory} (operation : Operation)
    (hcall : ∀ s, match m.respond s with
      | .ok (.update affected nativeKeys) =>
        let report := (m.record s operation [s.params]).report s affected nativeKeys
        ((call s m).1.mapError Stop.error).map reply = .ok (.outcome (.update report.1)) ∧
          (call s m).2 = report.2
      | _ => (call s m).2.shards = m.shards ∧
          ∀ shard, m.reportedKeys shard n (((call s m).1.mapError Stop.error).map reply) = []) :
    m.Runs n (answering reply (onOpen n call) m) := by
  rcases answering_onOpen reply call m n with ⟨s, hs, hopen, hrun⟩ | ⟨hnone, e, hrun⟩ <;> rw [hrun]
  · have hs' := hcall s
    have hnone := keyed?_eq_none hs hopen
    rcases hrespond : m.respond s with e | ⟨columns, rows⟩ | ⟨affected, nativeKeys⟩ <;>
      rw [hrespond] at hs' hnone
    · exact .inr ⟨hnone rfl, hs'⟩
    · exact .inr ⟨hnone rfl, hs'⟩
    · exact .inl ⟨s, operation, affected, nativeKeys, hs, hopen, hrespond, Prod.ext hs'.1 hs'.2⟩
  · exact .inr ⟨hnone, rfl, fun _ => rfl⟩

theorem runs_update (m : Memory) (n : Nat) : m.Runs n ((MemoryCall.update n).perform m) := by
  refine runs_onOpen .update fun s => ?_
  have hrecord : (m.record s .update [s.params]).respond s = m.respond s := rfl
  dsimp only
  rw [hrecord]
  rcases m.respond s with _ | _ | _
  · exact ⟨rfl, fun _ => rfl⟩
  · exact ⟨rfl, fun _ => rfl⟩
  · exact ⟨rfl, rfl⟩

theorem runs_execute (m : Memory) (n : Nat) : m.Runs n ((MemoryCall.execute n).perform m) := by
  refine runs_onOpen .execute fun s => ?_
  have hrecord : (m.record s .execute [s.params]).respond s = m.respond s := rfl
  dsimp only
  rw [hrecord]
  rcases m.respond s with _ | _ | _
  · exact ⟨rfl, fun _ => rfl⟩
  · exact ⟨rfl, fun _ => rfl⟩
  · exact ⟨rfl, rfl⟩

/-- A statement with a response has a shard. -/
theorem shard?_of_respond {s : MemoryStatement} {response : Response}
    (h : m.respond s = .ok response) : ∃ shard, m.shard? s.shard = some shard := by
  unfold respond at h
  cases hshard : m.shard? s.shard with
  | none => rw [hshard] at h; cases h
  | some shard => exact ⟨shard, rfl⟩

/-- A run takes the keys that its report has. -/
theorem Runs.takes {result : Except Stop MemoryReply × Memory} (h : m.Runs n result)
    (hrows : ∀ r ∈ m.keyed? shard n, r.2.toNat < 2 ^ 63) :
    Takes shard (((m.keyed? shard n).map fun (_, affected) => affected.toNat).getD 0)
      (m.reportedKeys shard n result.1) m result.2 := by
  rcases h with ⟨s, operation, affected, nativeKeys, hs, hopen, hrespond, rfl⟩ |
    ⟨hkeyed, hshards, hkeys⟩
  · have hkeyed := keyed?_of_open hs hopen shard
    rw [hrespond] at hkeyed
    have hreported : ∀ u, m.reportedKeys shard n (.ok (.outcome (.update u))) =
        if s.shard = shard then u.keys else [] := fun u => by simp [reportedKeys, hs]
    rw [hreported]
    by_cases hshard : s.shard = shard
    · subst hshard
      rw [if_pos rfl] at hkeyed ⊢
      cases nativeKeys with
      | false =>
        rw [hkeyed]
        exact takes_nothing rfl
      | true =>
        obtain ⟨shard, hfound⟩ := shard?_of_respond hrespond
        rw [hkeyed] at hrows ⊢
        have htakes := takes_takeKeys (m := m.record s operation [s.params]) hfound (hrows _ rfl)
        exact htakes.of_shards rfl rfl
    · rw [if_neg hshard] at hkeyed ⊢
      rw [hkeyed]
      refine takes_nothing ?_
      cases nativeKeys with
      | false => rfl
      | true => exact nextKey_takeKeys_of_ne _ affected hshard
  · rw [hkeyed, hkeys]
    exact takes_nothing (nextKey_of_shards hshards shard)

/-- The keys that a statement keeps are those of its batch. -/
theorem batchKeys_setStatement {s : MemoryStatement} (hs : m.statements[n]? = some s)
    (s' : MemoryStatement) : (Memory.batchKeys n (m.setStatement n s')).1 = s'.batchKeys := by
  unfold Memory.batchKeys
  rw [getElem?_setStatement hs]

/-- A batch with keys takes those of all its entries at once and keeps them with the statement.
Every other batch leaves the shards as they are. -/
def RunsBatch (m : Memory) (n : Nat) (after : Memory) : Prop :=
  (∃ (s : MemoryStatement) (affected : UInt64) (recorded : Memory),
    m.statements[n]? = some s ∧ s.closed = false ∧
    m.respond s = .ok (.update affected true) ∧ recorded.shards = m.shards ∧
    let taken := recorded.takeKeys s.shard (affected * UInt64.ofNat s.batch.length)
    after.shards = taken.2.shards ∧ (Memory.batchKeys n after).1 = taken.1) ∨
  ((∀ shard, m.keyed? shard n = none) ∧ after.shards = m.shards)

theorem runsBatch_executeBatch (m : Memory) (n : Nat) :
    m.RunsBatch n ((MemoryCall.executeBatch n).perform m).2 := by
  show m.RunsBatch n (answering .counts (Memory.executeBatch n) m).2
  unfold Memory.executeBatch
  rcases answering_onOpen .counts _ m n with ⟨s, hs, hopen, hrun⟩ | ⟨hnone, e, hrun⟩ <;> rw [hrun]
  · have hrespond : ((m.setStatement n { s with batch := [] }).record { s with batch := [] }
      .batch s.batch).respond { s with batch := [] } = m.respond s := rfl
    have hnone := keyed?_eq_none hs hopen
    have hset := getElem?_setStatement hs { s with batch := [] }
    dsimp only
    rw [hrespond]
    -- the memory once the queue is empty and the entries are in the log
    generalize hrecord : (m.setStatement n { s with batch := [] }).record { s with batch := [] }
      .batch s.batch = recorded
    have hshards : recorded.shards = m.shards := hrecord ▸ rfl
    replace hset : recorded.statements[n]? = some { s with batch := [] } := hrecord ▸ hset
    cases hresponse : m.respond s with
    | error e => exact .inr ⟨hnone (by rw [hresponse]; rfl), hshards⟩
    | ok response =>
      cases response with
      | rows columns rows => exact .inr ⟨hnone (by rw [hresponse]; rfl), hshards⟩
      | update affected nativeKeys =>
        cases nativeKeys with
        | false => exact .inr ⟨hnone (by rw [hresponse]; rfl), hshards⟩
        | true =>
          rw [← statements_takeKeys recorded s.shard (affected * UInt64.ofNat s.batch.length)]
            at hset
          exact .inl ⟨s, affected, recorded, hs, hopen, hresponse, hshards, rfl,
            batchKeys_setStatement hset _⟩
  · exact .inr ⟨hnone, rfl⟩

/-- The number of keys for a batch is the product, if that is one of the range of the keys. -/
theorem toNat_mul_ofNat {affected : UInt64} {entries : Nat}
    (h : affected.toNat * entries < 2 ^ 63) :
    (affected * UInt64.ofNat entries).toNat = affected.toNat * entries := by
  rw [UInt64.toNat_mul, UInt64.toNat_ofNat', Nat.mul_mod_mod, Nat.mod_eq_of_lt (by omega)]

/-- A batch keeps the keys that it takes. -/
theorem takes_executeBatch
    (hrows : ∀ rows ∈ (MemoryCall.executeBatch n).keyedRows? m shard, rows < 2 ^ 63) :
    Takes shard (((MemoryCall.executeBatch n).keyedRows? m shard).getD 0)
      ((MemoryCall.executeBatch n).allocated m shard) m
      ((MemoryCall.executeBatch n).perform m).2 := by
  unfold MemoryCall.allocated
  unfold MemoryCall.keyedRows? at hrows ⊢
  dsimp only at hrows ⊢
  rcases runsBatch_executeBatch m n with
    ⟨s, affected, recorded, hs, hopen, hrespond, hshards, hafter, hkept⟩ | ⟨hkeyed, hshards⟩
  · have hkeyed := keyed?_of_open hs hopen shard
    rw [hrespond] at hkeyed
    by_cases hshard : s.shard = shard
    · subst hshard
      rw [if_pos rfl] at hkeyed
      rw [hkeyed] at hrows ⊢
      obtain ⟨shard, hfound⟩ := shard?_of_respond hrespond
      have hfound : recorded.shard? s.shard = some shard :=
        (shard?_of_shards hshards s.shard).trans hfound
      replace hrows : affected.toNat * s.batch.length < 2 ^ 63 := hrows _ rfl
      have hcount := toNat_mul_ofNat hrows
      have htakes := takes_takeKeys hfound (hcount ▸ hrows)
      rw [hcount, ← hkept] at htakes
      exact htakes.of_shards hshards hafter
    · rw [if_neg hshard] at hkeyed
      rw [hkeyed]
      refine takes_nothing ((nextKey_of_shards hafter shard).trans ?_)
      rw [nextKey_takeKeys_of_ne recorded _ hshard, nextKey_of_shards hshards]
  · rw [hkeyed]
    exact takes_nothing (nextKey_of_shards hshards shard)

/-- An action on a statement that leaves the shards as they are. -/
theorem shards_answering_onOpen {α : Type} {reply : α → MemoryReply}
    {call : MemoryStatement → Memory → Except Error α × Memory}
    (h : ∀ s, (call s m).2.shards = m.shards) :
    (answering reply (onOpen n call) m).2.shards = m.shards := by
  rcases answering_onOpen reply call m n with ⟨s, -, -, hrun⟩ | ⟨-, e, hrun⟩ <;> rw [hrun]
  exact h s

end Memory

open Memory

namespace MemoryCall

variable {m : Memory} {shard : String}

/-! ## Calls -/

theorem shards_query (m : Memory) (n : Nat) : ((query n).perform m).2.shards = m.shards := by
  refine shards_answering_onOpen fun s => ?_
  dsimp only
  rcases (m.record s .query [s.params]).respond s with _ | _ | _ <;> rfl

theorem shards_connect (m : Memory) (name : String) :
    ((connect name).perform m).2.shards = m.shards := by
  simp only [perform, answering, provider, Memory.connect, Act.ofStep, Act.run_ofRun]
  split
  · rfl
  · split <;> rfl

theorem shards_batchKeys (m : Memory) (n : Nat) :
    ((batchKeys n).perform m).2.shards = m.shards := by
  simp only [perform, provider, Memory.batchKeys]
  split <;> rfl

theorem shards_close (m : Memory) (n : Nat) : ((close n).perform m).2.shards = m.shards := by
  show (closeStatement n m).2.shards = m.shards
  unfold closeStatement
  split
  · rfl
  · split <;> rfl

theorem shards_closeCursor (m : Memory) (n : Nat) :
    ((closeCursor n).perform m).2.shards = m.shards := by
  show (Memory.closeCursor n m).2.shards = m.shards
  unfold Memory.closeCursor
  split <;> rfl

/-- A call that does not lay down the next key of a shard takes its keys, one for each row that it
affects there with keys. -/
theorem takes (call : MemoryCall) (hcall : ∀ key, call ≠ .setNextKey shard key)
    (hrows : ∀ rows ∈ call.keyedRows? m shard, rows < 2 ^ 63) :
    Takes shard ((call.keyedRows? m shard).getD 0) (call.allocated m shard) m
      (call.perform m).2 := by
  cases call with
  | update n => exact (runs_update m n).takes fun r hr => hrows _ (Option.mem_map_of_mem _ hr)
  | execute n => exact (runs_execute m n).takes fun r hr => hrows _ (Option.mem_map_of_mem _ hr)
  | executeBatch n => exact takes_executeBatch hrows
  | addShard name => exact takes_nothing (nextKey_addShard m name shard)
  | script name fragment response =>
    exact takes_nothing (nextKey_configure m (fun _ => rfl) fun _ _ => rfl)
  | failPrepare name => exact takes_nothing (nextKey_configure m (fun _ => rfl) fun _ _ => rfl)
  | setUnavailable name unavailable =>
    exact takes_nothing (nextKey_configure m (fun _ => rfl) fun _ _ => rfl)
  | setNextKey name key =>
    have hother : name ≠ shard := fun hname => hcall key (by rw [hname])
    exact takes_nothing (nextKey_configure m (fun _ => rfl) fun hname => (hother hname).elim)
  | clearLog => exact takes_nothing rfl
  | connect name => exact takes_nothing (nextKey_of_shards (shards_connect m name) shard)
  | prepare c sql => exact takes_nothing (nextKey_of_shards (shards_prepare m c sql) shard)
  | bind n params =>
    exact takes_nothing (nextKey_of_shards (shards_answering_onOpen fun _ => rfl) shard)
  | query n => exact takes_nothing (nextKey_of_shards (shards_query m n) shard)
  | addBatch n =>
    exact takes_nothing (nextKey_of_shards (shards_answering_onOpen fun _ => rfl) shard)
  | batchKeys n => exact takes_nothing (nextKey_of_shards (shards_batchKeys m n) shard)
  | close n => exact takes_nothing (nextKey_of_shards (shards_close m n) shard)
  | closeCursor n => exact takes_nothing (nextKey_of_shards (shards_closeCursor m n) shard)

end MemoryCall

/-! ## Accounts -/

namespace KeyAccount

variable {a : KeyAccount} {m : Memory} {shard : String}

/-- Every number of rows is one of the range of the keys. -/
def RowsFit (a : KeyAccount) : Prop :=
  ∀ rows ∈ a.rows, rows < 2 ^ 63

/-- The numbers of rows and the keys stay within the range of the keys. -/
structure Fits (a : KeyAccount) : Prop where
  rows : a.RowsFit
  last : a.start.toInt + a.rows.sum ≤ 2 ^ 63

/-- The keys are the integers from the start on, one for each row. -/
def Consecutive (a : KeyAccount) : Prop :=
  ∃ keys : List Int64, a.keys = keys.map .int64 ∧
    keys.map Int64.toInt = (List.range a.rows.sum).map fun i : Nat => a.start.toInt + i

/-- The keys in an account follow its start, and the next key of the shard is the one after them. -/
structure Agrees (a : KeyAccount) (shard : String) (m : Memory) : Prop where
  keys : a.keys = keysFrom a.start a.rows.sum
  nextKey : m.nextKey shard = a.start + Int64.ofNat a.rows.sum

theorem note_setNextKey (a : KeyAccount) (m : Memory) (shard : String) (key : Int64) :
    a.note shard m (.setNextKey shard key) = { start := key } :=
  if_pos rfl

theorem note_of_ne {call : MemoryCall} (hcall : ∀ key, call ≠ .setNextKey shard key) :
    a.note shard m call =
      { a with
        rows := a.rows ++ (call.keyedRows? m shard).toList
        keys := a.keys ++ call.allocated m shard } := by
  cases call with
  | setNextKey name key =>
    have hother : name ≠ shard := fun hname => hcall key (by rw [hname])
    simp [note, hother, MemoryCall.keyedRows?, MemoryCall.allocated]
  | _ => rfl

/-- A call that takes keys goes on in the account. -/
theorem Agrees.takes {m' : Memory} {rows? : Option Nat} {keys : List Datum}
    (h : a.Agrees shard m) (htakes : Takes shard (rows?.getD 0) keys m m') :
    { a with rows := a.rows ++ rows?.toList, keys := a.keys ++ keys : KeyAccount }.Agrees
      shard m' := by
  have hsum : (a.rows ++ rows?.toList).sum = a.rows.sum + rows?.getD 0 := by
    rw [List.sum_append]
    cases rows? <;> rfl
  constructor
  · show a.keys ++ keys = keysFrom a.start (a.rows ++ rows?.toList).sum
    rw [hsum, keysFrom_add, h.keys, htakes.keys, h.nextKey]
  · show m'.nextKey shard = a.start + Int64.ofNat (a.rows ++ rows?.toList).sum
    rw [hsum, htakes.nextKey, h.nextKey, Int64.ofNat_add, Int64.add_assoc]

/-- The account agrees with the memory after every call. -/
theorem Agrees.note (h : a.RowsFit → a.Agrees shard m) (call : MemoryCall)
    (hrowsFit : (a.note shard m call).RowsFit) :
    (a.note shard m call).Agrees shard (call.perform m).2 := by
  by_cases hcall : ∀ key, call ≠ .setNextKey shard key
  · rw [note_of_ne hcall] at hrowsFit ⊢
    have hbefore : a.RowsFit := fun rows hrows => hrowsFit rows (List.mem_append_left _ hrows)
    have hrows : ∀ rows ∈ call.keyedRows? m shard, rows < 2 ^ 63 := fun rows hrows =>
      hrowsFit rows (List.mem_append_right _ (Option.mem_toList.2 hrows))
    exact (h hbefore).takes (call.takes hcall hrows)
  · obtain ⟨key, rfl⟩ : ∃ key, call = .setNextKey shard key := by simpa using hcall
    rw [note_setNextKey]
    exact ⟨rfl, (nextKey_setNextKey m shard key).trans (Int64.add_zero key).symm⟩

/-- Keys that stay within their range are consecutive integers. -/
theorem Agrees.consecutive (h : a.Agrees shard m) (hfits : a.Fits) : a.Consecutive := by
  refine ⟨(List.range a.rows.sum).map fun i => a.start + Int64.ofNat i, ?_, ?_⟩
  · rw [h.keys, keysFrom, List.map_map]
    rfl
  · rw [List.map_map]
    refine List.map_congr_left fun i hi => ?_
    have hlast := hfits.last
    have hlow := a.start.le_toInt
    have hsize : Int64.size = 2 ^ 64 := rfl
    replace hi := List.mem_range.1 hi
    rw [Function.comp_apply, Int64.toInt_add, Int64.toInt_ofNat', Int.add_bmod_bmod]
    exact Int.bmod_eq_of_le (by omega) (by omega)

end KeyAccount

/-! ## Runs -/

namespace Ledger

variable {l : Ledger} {m : Memory}

/-- What a ledger says of the handles and of the keys is so in the memory. -/
structure Faithful (l : Ledger) (m : Memory) : Prop where
  agrees : l.Agrees m
  accounts : ∀ shard, (l.account shard).RowsFit → (l.account shard).Agrees shard m

theorem account_note (l : Ledger) (m : Memory) (call : MemoryCall) (shard : String) :
    (l.note m call).account shard = (l.account shard).note shard m call := by
  cases call with
  | close n => rfl
  | closeCursor n => rfl
  | _ =>
    unfold note receive
    dsimp only
    split <;> rfl

theorem Faithful.note (h : l.Faithful m) (call : MemoryCall) :
    (l.note m call).Faithful (call.perform m).2 where
  agrees := h.agrees.note call
  accounts shard := by
    rw [account_note]
    exact KeyAccount.Agrees.note (h.accounts shard) call

theorem Faithful.run (h : l.Faithful m) (calls : List MemoryCall) :
    (Ledger.run calls m l).2.Faithful (Ledger.run calls m l).1 := by
  induction calls generalizing m l with
  | nil => exact h
  | cons call calls ih => exact ih (h.note call)

theorem faithful_ofShards (names : List String) : Faithful {} (Memory.ofShards names) where
  agrees := agrees_ofShards names
  accounts shard _ := ⟨rfl, (nextKey_ofShards names shard).trans (Int64.add_zero 1).symm⟩

end Ledger

/-- Whatever is called on a provider in memory: it counts the statements and the cursors that were
created and not closed since, and the statements that were prepared.  The keys that a shard has
allocated since its next key was laid down are consecutive integers from that key on, one for each
row, as long as the keys and the numbers of rows are integers of 64 bits. -/
theorem Memory.counts_and_keys_of_calls (names : List String) (calls : List MemoryCall) :
    let m := (Ledger.run calls (Memory.ofShards names) {}).1
    let l := (Ledger.run calls (Memory.ofShards names) {}).2
    (m.openStatements = l.handles.1.card ∧ 0 ≤ m.openStatements ∧ l.handles.1.Nodup) ∧
    (m.openCursors = l.handles.2.card ∧ 0 ≤ m.openCursors ∧ l.handles.2.Nodup) ∧
    m.prepared = l.prepared ∧
    ∀ shard, (l.account shard).Fits → (l.account shard).Consecutive := by
  intro m l
  have hfaithful : l.Faithful m := (Ledger.faithful_ofShards names).run calls
  have h := hfaithful.agrees
  refine ⟨⟨h.openStatements, ?_, ?_⟩, ⟨h.openCursors, ?_, ?_⟩, h.prepared, fun shard hfits => ?_⟩
  · rw [h.openStatements]
    exact Int.natCast_nonneg _
  · rw [h.statements]
    exact nodup_openNumbers _
  · rw [h.openCursors]
    exact Int.natCast_nonneg _
  · rw [h.cursors]
    exact nodup_openNumbers _
  · exact (hfaithful.accounts shard hfits.rows).consecutive hfits

/-- Calls on one shard whose keys start at ten: an update of two rows, a query that fails and one
that does not, a batch of two entries, and closes that repeat. -/
def MemoryCall.insertions : List MemoryCall :=
  [.script "ds_0" "INSERT" (.ok (.update 2 true)), .script "ds_0" "SELECT" (.ok (.rows [] [])),
    .setNextKey "ds_0" 10, .connect "ds_0", .prepare ⟨"ds_0", 0⟩ "INSERT INTO t VALUES (?)",
    .prepare ⟨"ds_0", 0⟩ "SELECT 1", .update 0, .query 0, .query 1, .addBatch 0, .addBatch 0,
    .executeBatch 0, .closeCursor 0, .closeCursor 0, .close 0, .close 0, .update 0]

/-- The six keys of these calls go from ten on. -/
theorem Memory.counts_and_keys_of_insertions :
    let account := (Ledger.run MemoryCall.insertions (Memory.ofShards ["ds_0"]) {}).2.account "ds_0"
    account.start = 10 ∧ account.rows = [2, 4] ∧ account.Fits ∧ account.Consecutive := by
  intro account
  have hstart : account.start = 10 := by decide
  have hrows : account.rows = [2, 4] := by decide
  have hfits : account.Fits :=
    ⟨by rw [KeyAccount.RowsFit, hrows]; decide, by rw [hstart, hrows]; decide⟩
  exact ⟨hstart, hrows, hfits,
    (counts_and_keys_of_calls ["ds_0"] MemoryCall.insertions).2.2.2 "ds_0" hfits⟩

end Sharding
