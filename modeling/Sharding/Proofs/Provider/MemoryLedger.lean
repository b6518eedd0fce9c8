import Sharding.Proofs.Provider.MemoryBooks

/-!
# A ledger of the provider in memory

A `MemoryCall` is a call of the provider in memory or a step that sets it up.  A `Ledger` is what
somebody knows who watches the calls and their answers: which statements and cursors were created
and not closed since, how many statements were prepared, and for each shard a `KeyAccount` of the
keys since the next key was last laid down.

Whatever the calls are, the handles in the ledger are the open ones, and the counts that the
provider keeps are theirs (`Ledger.Agrees.note`).
-/

namespace Sharding

/-! ## Calls -/

/-- A call of the provider in memory, or a step that sets it up. -/
inductive MemoryCall where
  | addShard (shard : String)
  /-- Registers an answer. -/
  | script (shard fragment : String) (response : Except String Response)
  | failPrepare (shard : String)
  | setUnavailable (shard : String) (unavailable : Bool)
  /-- Lays down the next key of a shard. -/
  | setNextKey (shard : String) (key : Int64)
  | clearLog
  | connect (shard : String)
  | prepare (connection : Connection) (sql : String)
  | bind (statement : Nat) (params : List Datum)
  | query (statement : Nat)
  | update (statement : Nat)
  | execute (statement : Nat)
  | addBatch (statement : Nat)
  | executeBatch (statement : Nat)
  | batchKeys (statement : Nat)
  | close (statement : Nat)
  | closeCursor (cursor : Nat)

/-- What a call answers. -/
inductive MemoryReply where
  | done
  | connection (c : Connection)
  | statement (n : Nat)
  | outcome (outcome : Outcome)
  | counts (counts : List UInt64)
  | keys (keys : List Datum)

/-- The handles that an answer hands out. -/
def MemoryReply.handles : MemoryReply → Handles
  | statement n => Handles.statement n
  | outcome o => o.handles
  | _ => 0

/-- Runs an action and puts its answer in the form of a reply. -/
def Memory.answering {α : Type} (reply : α → MemoryReply) (x : Act Memory α) (m : Memory) :
    Except Stop MemoryReply × Memory :=
  ((x.run m).1.map reply, (x.run m).2)

/-- What a call answers, and the memory after it. -/
def MemoryCall.perform (m : Memory) : MemoryCall → Except Stop MemoryReply × Memory
  | addShard shard => (.ok .done, m.addShard shard)
  | script shard fragment response => (.ok .done, m.script shard fragment response)
  | failPrepare shard => (.ok .done, m.configure shard fun s => { s with failsPrepare := true })
  | setUnavailable shard unavailable =>
    (.ok .done, m.configure shard fun s => { s with unavailable })
  | setNextKey shard nextKey => (.ok .done, m.configure shard fun s => { s with nextKey })
  | clearLog => (.ok .done, { m with log := [] })
  | connect shard => Memory.answering .connection (Memory.provider.connect shard) m
  | prepare c sql => Memory.answering .statement (Memory.provider.prepare c sql) m
  | bind n params => Memory.answering (fun _ => .done) (Memory.provider.bind n params) m
  | query n => Memory.answering (fun s => .outcome (.rows s)) (Memory.provider.query n) m
  | update n => Memory.answering (fun u => .outcome (.update u)) (Memory.provider.update n) m
  | execute n => Memory.answering .outcome (Memory.provider.execute n) m
  | addBatch n => Memory.answering (fun _ => .done) (Memory.provider.addBatch n) m
  | executeBatch n => Memory.answering .counts (Memory.provider.executeBatch n) m
  | batchKeys n =>
    let (keys, m) := Memory.provider.batchKeys n m
    (.ok (.keys keys), m)
  | close n => Memory.answering (fun _ => .done) (Act.ofStep (Memory.provider.close n)) m
  | closeCursor n =>
    Memory.answering (fun _ => .done) (Act.ofStep (Memory.provider.closeCursor n)) m

/-! ## Keys of one shard -/

/-- The affected rows of a response that is scripted with keys. -/
def Response.keyed? : Response → Option UInt64
  | update affected true => some affected
  | _ => none

namespace Memory

/-- The open statement with a number and the rows that its response affects, if it is a statement of
the shard and its response is scripted with keys. -/
def keyed? (m : Memory) (shard : String) (n : Nat) : Option (MemoryStatement × UInt64) :=
  match m.statements[n]? with
  | none => none
  | some s =>
    if s.closed ∨ s.shard ≠ shard then none
    else ((m.respond s).toOption.bind Response.keyed?).map fun affected => (s, affected)

/-- The keys in the report of an update, if its statement is one of the shard. -/
def reportedKeys (m : Memory) (shard : String) (n : Nat) : Except Stop MemoryReply → List Datum
  | .ok (.outcome (.update u)) =>
    if (m.statements[n]?).any (·.shard = shard) then u.keys else []
  | _ => []

end Memory

namespace MemoryCall

/-- The number of rows that a call affects on a shard, if it executes a statement whose response is
scripted with keys.  A batch affects as many rows for each of its entries. -/
def keyedRows? (m : Memory) (shard : String) : MemoryCall → Option Nat
  | update n | execute n => (m.keyed? shard n).map fun (_, affected) => affected.toNat
  | executeBatch n =>
    (m.keyed? shard n).map fun (s, affected) => affected.toNat * s.batch.length
  | _ => none

/-- The keys that a call allocates on a shard: those that an update reports, and those that a
statement keeps of a batch whose response is scripted with keys. -/
def allocated (m : Memory) (shard : String) (call : MemoryCall) : List Datum :=
  match call with
  | update n | execute n => m.reportedKeys shard n (call.perform m).1
  | executeBatch n =>
    if (m.keyed? shard n).isSome then (Memory.provider.batchKeys n (call.perform m).2).1 else []
  | _ => []

end MemoryCall

/-- The keys of a shard since its next key was last laid down. -/
structure KeyAccount where
  /-- The key that was laid down.  Every shard starts with one. -/
  start : Int64 := 1
  /-- For each execution whose response is scripted with keys, the number of affected rows. -/
  rows : List Nat := []
  /-- The keys that were allocated, in their order. -/
  keys : List Datum := []

/-- The account after a call on a memory. -/
def KeyAccount.note (a : KeyAccount) (shard : String) (m : Memory) (call : MemoryCall) :
    KeyAccount :=
  match call with
  | .setNextKey other key => if other = shard then { start := key } else a
  | call =>
    { a with
      rows := a.rows ++ (call.keyedRows? m shard).toList
      keys := a.keys ++ call.allocated m shard }

/-! ## Ledgers -/

/-- What the calls and their answers tell. -/
structure Ledger where
  /-- The statements and the cursors that were created and not closed since. -/
  handles : Handles := 0
  /-- The number of statements that were prepared. -/
  prepared : Nat := 0
  account : String → KeyAccount := fun _ => {}

namespace Ledger

/-- The ledger after an answer that may hand out handles. -/
def receive (l : Ledger) : Except Stop MemoryReply → Ledger
  | .ok reply =>
    { l with handles := reply.handles + l.handles, prepared := l.prepared + reply.handles.1.card }
  | .error _ => l

/-- The ledger after a call on a memory.  Closing again changes nothing. -/
def note (l : Ledger) (m : Memory) (call : MemoryCall) : Ledger :=
  let l := { l with account := fun shard => (l.account shard).note shard m call }
  match call with
  | .close n => { l with handles := (l.handles.1.erase n, l.handles.2) }
  | .closeCursor n => { l with handles := (l.handles.1, l.handles.2.erase n) }
  | call => l.receive (call.perform m).1

/-- The memory and the ledger after some calls. -/
def run (calls : List MemoryCall) (m : Memory) (l : Ledger) : Memory × Ledger :=
  calls.foldl (fun (m, l) call => ((call.perform m).2, l.note m call)) (m, l)

/-- The handles of the ledger are those that are open in the memory, and the counts of the memory
are theirs. -/
structure Agrees (l : Ledger) (m : Memory) : Prop where
  statements : l.handles.1 = openNumbers (m.statements.map (·.closed))
  cursors : l.handles.2 = openNumbers m.cursors
  openStatements : m.openStatements = l.handles.1.card
  openCursors : m.openCursors = l.handles.2.card
  prepared : m.prepared = l.prepared

end Ledger

namespace Memory

/-- Setting up a shard opens nothing. -/
theorem opened_addShard (m : Memory) (name : String) : Opened 0 m (m.addShard name) := by
  unfold addShard
  split <;> exact opened_nothing rfl rfl rfl

theorem opened_configure (m : Memory) (name : String) (f : MemoryShard → MemoryShard) :
    Opened 0 m (m.configure name f) :=
  (opened_addShard m name).trans (opened_nothing rfl rfl rfl)

end Memory

/-- What is taken away is not counted any more. -/
theorem decrement_eq_card_erase {handles : Multiset Nat} {count : Int} {n : Nat}
    (h : count = handles.card) :
    (if n ∈ handles then count - 1 else count) = (handles.erase n).card := by
  rw [Multiset.card_erase_eq_ite, h]
  split
  · rename_i hmem
    have hpos := Multiset.card_pos_iff_exists_mem.2 ⟨n, hmem⟩
    rw [Nat.pred_eq_sub_one]
    omega
  · rfl

open Memory

namespace Ledger.Agrees

variable {l : Ledger} {m m' : Memory}

/-- Handles that are opened are handed out and counted. -/
theorem receive (h : l.Agrees m) {new : Handles} {reply : MemoryReply} (hnew : reply.handles = new)
    (hopened : Opened new m m') : (l.receive (.ok reply)).Agrees m' where
  statements := by rw [hopened.statements, ← h.statements, ← hnew]; rfl
  cursors := by rw [hopened.cursors, ← h.cursors, ← hnew]; rfl
  openStatements := by
    show _ = ((reply.handles.1 + l.handles.1).card : Int)
    rw [hopened.openStatements, h.openStatements, hnew, Multiset.card_add]
    omega
  openCursors := by
    show _ = ((reply.handles.2 + l.handles.2).card : Int)
    rw [hopened.openCursors, h.openCursors, hnew, Multiset.card_add]
    omega
  prepared := by rw [hopened.prepared, h.prepared, ← hnew]; rfl

/-- Where nothing is opened, the ledger stays. -/
theorem same (h : l.Agrees m) (hopened : Opened 0 m m') : l.Agrees m' where
  statements := h.statements.trans (hopened.statements.trans (zero_add _)).symm
  cursors := h.cursors.trans (hopened.cursors.trans (zero_add _)).symm
  openStatements := (hopened.openStatements.trans (add_zero _)).trans h.openStatements
  openCursors := (hopened.openCursors.trans (add_zero _)).trans h.openCursors
  prepared := hopened.prepared.trans h.prepared

/-- A call that opens what its answer hands out. -/
theorem answering {α : Type} {x : Act Memory α} {opened : α → Handles} {reply : α → MemoryReply}
    (h : l.Agrees m) (hx : Opening x opened) (hreply : ∀ a, (reply a).handles = opened a) :
    (l.receive (Memory.answering reply x m).1).Agrees (Memory.answering reply x m).2 := by
  have hstep := hx m
  unfold Act.Replies at hstep
  unfold Memory.answering
  rcases hrun : x.run m with ⟨⟨_ | _⟩ | a, m'⟩ <;> rw [hrun] at hstep
  · exact h.same hstep
  · cases hstep
  · exact h.receive (hreply a) hstep

/-- A statement that is closed is open and counted no more.  Closing it again changes nothing. -/
theorem close (h : l.Agrees m) (n : Nat) :
    ({ l with handles := (l.handles.1.erase n, l.handles.2) } : Ledger).Agrees
      (closeStatement n m).2 := by
  have hbooks := closes_statement (E := Unit) n (m, ())
  have hopen : n ∈ l.handles.1 ↔ (m.statements.map (·.closed))[n]? = some false := by
    rw [h.statements, mem_openNumbers]
  have hcounts : (closeStatement n m).2.counts =
      (if n ∈ l.handles.1 then m.openStatements - 1 else m.openStatements, m.openCursors,
        m.prepared) := by
    rw [List.getElem?_map] at hopen
    simp only [hopen, closeStatement]
    cases m.statements[n]? with
    | none => rfl
    | some s => cases hclosed : s.closed <;> simp [hclosed, counts, setStatement]
  exact ⟨by rw [h.statements]; exact hbooks.1.symm, h.cursors.trans hbooks.2.symm,
    (congrArg (·.1) hcounts).trans (decrement_eq_card_erase h.openStatements),
    (congrArg (·.2.1) hcounts).trans h.openCursors, (congrArg (·.2.2) hcounts).trans h.prepared⟩

/-- The same of a cursor. -/
theorem closeCursor (h : l.Agrees m) (n : Nat) :
    ({ l with handles := (l.handles.1, l.handles.2.erase n) } : Ledger).Agrees
      (Memory.closeCursor n m).2 := by
  have hbooks := closes_cursor (E := Unit) n (m, ())
  have hopen : n ∈ l.handles.2 ↔ m.cursors[n]? = some false := by
    rw [h.cursors, mem_openNumbers]
  have hcounts : (Memory.closeCursor n m).2.counts =
      (m.openStatements, if n ∈ l.handles.2 then m.openCursors - 1 else m.openCursors,
        m.prepared) := by
    simp only [hopen, Memory.closeCursor]
    split <;> rfl
  exact ⟨h.statements.trans hbooks.1.symm, by rw [h.cursors]; exact hbooks.2.symm,
    (congrArg (·.1) hcounts).trans h.openStatements,
    (congrArg (·.2.1) hcounts).trans (decrement_eq_card_erase h.openCursors),
    (congrArg (·.2.2) hcounts).trans h.prepared⟩

/-- The ledger agrees with the memory after every call. -/
theorem note (h : l.Agrees m) (call : MemoryCall) : (l.note m call).Agrees (call.perform m).2 := by
  have h : ({ l with account := fun shard => (l.account shard).note shard m call } : Ledger).Agrees
      m := ⟨h.statements, h.cursors, h.openStatements, h.openCursors, h.prepared⟩
  cases call with
  | addShard shard => exact h.receive rfl (opened_addShard m shard)
  | script shard fragment response => exact h.receive rfl (opened_configure m shard _)
  | failPrepare shard => exact h.receive rfl (opened_configure m shard _)
  | setUnavailable shard unavailable => exact h.receive rfl (opened_configure m shard _)
  | setNextKey shard key => exact h.receive rfl (opened_configure m shard _)
  | clearLog => exact h.receive rfl (opened_nothing rfl rfl rfl)
  | connect shard => exact h.answering (opening_connect shard) fun _ => rfl
  | prepare c sql => exact h.answering (opening_prepare c sql) fun _ => rfl
  | bind n params => exact h.answering (opening_bind n params) fun _ => rfl
  | query n => exact h.answering (opening_query n) fun _ => rfl
  | update n => exact h.answering (opening_update n) fun _ => rfl
  | execute n => exact h.answering (opening_execute n) fun _ => rfl
  | addBatch n => exact h.answering (opening_addBatch n) fun _ => rfl
  | executeBatch n => exact h.answering (opening_executeBatch n) fun _ => rfl
  | batchKeys n => exact h.receive rfl (opened_batchKeys n m)
  | close n => exact h.close n
  | closeCursor n => exact h.closeCursor n

end Ledger.Agrees

/-- A new provider has nothing open and has counted nothing. -/
theorem Ledger.agrees_ofShards (names : List String) :
    Ledger.Agrees {} (Memory.ofShards names) := by
  have hopened : ∀ m, Opened 0 m (names.foldl Memory.addShard m) := by
    induction names with
    | nil => exact fun m => opened_nothing rfl rfl rfl
    | cons name names ih => exact fun m => (opened_addShard m name).trans (ih _)
  have hempty : Ledger.Agrees {} ({} : Memory) := ⟨rfl, rfl, rfl, rfl, rfl⟩
  exact hempty.same (hopened {})

end Sharding
