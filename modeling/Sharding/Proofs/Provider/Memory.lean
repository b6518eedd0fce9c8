import Mathlib.Algebra.Order.Group.Multiset
import Sharding.Execute.Batch
import Sharding.Execute.Statement
import Sharding.Proofs.Merge.Bare
import Sharding.Proofs.Merge.Closing
import Sharding.Proofs.Program.Owning
import Sharding.Provider.Memory

/-!
# Units run on the provider in memory

What a shard in memory answers to a statement is laid down in its scripts, and no call changes
those.  So each unit of a call has a reply that is known beforehand, whatever the other units do
meanwhile: the log, the numbers of cursors and the generated keys depend on them, and are no part
of it.

A worker owns the statements of its units.  `Memory.Holds` says of a world that these are open and
different from each other, and what the scripts answer.

* Each call on a statement leaves the other statements and the scripts alone (`Memory.SameBut`).
* `owns_query`, `owns_update` and the like say what one call replies and what it does to its
  statement.
* `owns_queryUnit` and `owns_batchUnit` put them together for a unit of a query and of a batch.
-/

namespace Sharding

variable {E α β : Type}

/-- The provider in memory, with something else beside it. -/
def Memory.beside (E : Type) : Provider (Memory × E) :=
  Memory.provider.zoom Prod.fst fun m w => (m, w.2)

/-- A token beside the memory. -/
def CancelToken.beside (t : CancelToken E) : CancelToken (Memory × E) where
  isSet w := t.isSet w.2
  put b w := (w.1, t.put b w.2)
  isSet_put b w := t.isSet_put b w.2

/-- A token that is there alone. -/
def CancelToken.flag : CancelToken Bool where
  isSet b := b
  put b _ := b
  isSet_put _ _ := rfl

/-- No close of a cursor fails. -/
theorem Memory.closeCursor_neverFails : NeverFails (Memory.beside E).closeCursor := by
  intro n w
  show (closeCursor n w.1).1 = .ok ()
  unfold closeCursor
  split <;> rfl

/-! ## Scripts -/

namespace Memory

/-- The answer of a shard to a statement. -/
def answer (m : Memory) (shard sql : String) : Except Error Response :=
  m.respond { shard, sql }

theorem name_of_shard? {m : Memory} {name : String} {s : MemoryShard}
    (h : m.shard? name = some s) : s.name = name := by
  simpa using List.find?_some h

theorem shard?_of_shards {m m' : Memory} (h : m'.shards = m.shards) (name : String) :
    m'.shard? name = m.shard? name :=
  congrArg (List.find? _) h

/-- Preparing changes no shard. -/
theorem shards_prepare (m : Memory) (c : Connection) (sql : String) :
    ((Memory.prepare c sql).run m).2.shards = m.shards := by
  unfold Memory.prepare Act.ofStep
  rw [Act.run_ofRun]
  dsimp only
  split <;> rfl

theorem shard?_modifyShard (m : Memory) (name other : String) {f : MemoryShard → MemoryShard}
    (hf : ∀ s, s.name = name → (f s).name = name) :
    (m.modifyShard name f).shard? other =
      (m.shard? other).map fun s => if s.name == name then f s else s := by
  have hnames : (fun s : MemoryShard => (if s.name == name then f s else s).name == other) =
      fun s => s.name == other := by
    funext s
    split
    · rename_i hs
      rw [hf s (eq_of_beq hs), eq_of_beq hs]
    · rfl
  show (m.shards.map fun s => if s.name == name then f s else s).find? (·.name == other) = _
  rw [List.find?_map]
  exact congrArg (Option.map _ <| List.find? · m.shards) hnames

/-- Keys are drawn without a change of anything else about the shards. -/
theorem map_shard?_takeKeys {β : Type} {f : MemoryShard → β}
    (hf : ∀ s count, f (MemoryShard.takeKeys s count).2 = f s) (m : Memory) (shard : String)
    (count : UInt64) (name : String) :
    ((m.takeKeys shard count).2.shard? name).map f = (m.shard? name).map f := by
  unfold takeKeys
  cases hshard : m.shard? shard with
  | none => rfl
  | some s =>
    have hname : s.name = shard := name_of_shard? hshard
    have hkeep : ∀ other : MemoryShard, other.name = shard → (s.takeKeys count).2.name = shard :=
      fun _ _ => hname
    show ((m.modifyShard shard fun _ => (s.takeKeys count).2).shard? name).map f = _
    rw [shard?_modifyShard m shard name hkeep]
    by_cases hother : name = shard
    · rw [hother, hshard, Option.map_some, hname, beq_self_eq_true, if_pos rfl]
      exact congrArg some (hf s count)
    · cases hfound : m.shard? name with
      | none => rfl
      | some other =>
        have hfoundName : other.name = name := name_of_shard? hfound
        rw [Option.map_some, if_neg (by simpa [hfoundName] using hother)]

theorem answer_takeKeys (m : Memory) (shard : String) (count : UInt64) :
    (m.takeKeys shard count).2.answer = m.answer := by
  have hscripts : ∀ name, ((m.takeKeys shard count).2.shard? name).map MemoryShard.script? =
      (m.shard? name).map MemoryShard.script? :=
    map_shard?_takeKeys (fun _ _ => rfl) m shard count
  have hscript : ∀ (m : Memory) name sql, (m.shard? name).bind (·.script? sql) =
      ((m.shard? name).map MemoryShard.script?).bind (· sql) :=
    fun m name sql => by rw [Option.bind_map]; rfl
  funext name sql
  unfold answer respond
  rw [hscript, hscripts, ← hscript]

end Memory

/-! ## Open statements -/

/-- An open statement, as far as its executions depend on it. -/
structure OpenStatement where
  number : Nat
  shard : String
  sql : String
  /-- The number of queued batch entries. -/
  queued : Nat := 0

/-- The statement of a prepared unit. -/
def PreparedUnit.opened (u : PreparedUnit) : OpenStatement where
  number := u.statement
  shard := u.unit.shard
  sql := u.unit.sql

namespace OpenStatement

/-- The open statement is this one. -/
structure Is (o : OpenStatement) (s : MemoryStatement) : Prop where
  isOpen : s.closed = false
  shard : s.shard = o.shard
  sql : s.sql = o.sql
  queued : s.batch.length = o.queued

/-- The statement is open in the memory. -/
def In (o : OpenStatement) (m : Memory) : Prop :=
  ∃ s, m.statements[o.number]? = some s ∧ o.Is s

end OpenStatement

namespace Memory

/-- At most the statement with a number differs, and the scripts answer as before. -/
structure SameBut (n : Nat) (m m' : Memory) : Prop where
  others : ∀ k, k ≠ n → m'.statements[k]? = m.statements[k]?
  answer : m'.answer = m.answer

/-- The open statements `os` are different from each other, the scripts answer as `answers` says,
and `e` stands beside the memory. -/
structure Holds (answers : String → String → Except Error Response) (e : E)
    (os : Multiset OpenStatement) (w : Memory × E) : Prop where
  distinct : (os.map (·.number)).Nodup
  isOpen : ∀ o ∈ os, o.In w.1
  answers : w.1.answer = answers
  beside : w.2 = e

variable {answers : String → String → Except Error Response} {e : E} {o o' : OpenStatement}
  {f : Multiset OpenStatement} {w w' : Memory × E} {m m' : Memory}

theorem SameBut.of_statements (n : Nat) (hstatements : m'.statements = m.statements)
    (hanswer : m'.answer = m.answer) : SameBut n m m' :=
  ⟨fun _ _ => by rw [hstatements], hanswer⟩

/-- A statement may change while its owner has it. -/
theorem Holds.change (h : Holds answers e ({o} + f) w) (hnumber : o'.number = o.number)
    (ho' : o'.In m') (hsame : SameBut o.number w.1 m') : Holds answers e ({o'} + f) (m', w.2) where
  distinct := by
    have hdistinct := h.distinct
    rw [Multiset.map_add, Multiset.map_singleton] at hdistinct ⊢
    rwa [hnumber]
  isOpen k hk := by
    rw [Multiset.mem_add, Multiset.mem_singleton] at hk
    rcases hk with rfl | hk
    · exact ho'
    · obtain ⟨s, hs, his⟩ := h.isOpen k (Multiset.mem_add.2 (.inr hk))
      refine ⟨s, ?_, his⟩
      have hdistinct := h.distinct
      rw [Multiset.map_add, Multiset.map_singleton, Multiset.singleton_add,
        Multiset.nodup_cons] at hdistinct
      rw [hsame.others _ fun hsameNumber =>
        hdistinct.1 (hsameNumber ▸ Multiset.mem_map_of_mem _ hk)]
      exact hs
  answers := hsame.answer.trans h.answers
  beside := h.beside

/-- A statement that is prepared has a number of its own. -/
theorem Holds.append {os : Multiset OpenStatement} (h : Holds answers e os w) {shard sql : String}
    (hstatements : m'.statements = w.1.statements ++ [{ shard := shard, sql }])
    (hanswer : m'.answer = w.1.answer) :
    Holds answers e ({{ number := w.1.statements.length, shard, sql }} + os) (m', w.2) where
  distinct := by
    rw [Multiset.map_add, Multiset.map_singleton, Multiset.singleton_add, Multiset.nodup_cons]
    refine ⟨fun hmem => ?_, h.distinct⟩
    obtain ⟨o, ho, hnumber⟩ := Multiset.mem_map.1 hmem
    obtain ⟨s, hs, -⟩ := h.isOpen o ho
    have hlt := (List.getElem?_eq_some_iff.1 hs).1
    dsimp only at hnumber
    omega
  isOpen o ho := by
    rw [Multiset.mem_add, Multiset.mem_singleton] at ho
    rcases ho with rfl | ho
    · refine ⟨{ shard := shard, sql }, ?_, rfl, rfl, rfl, rfl⟩
      rw [hstatements]
      exact List.getElem?_concat_length
    · obtain ⟨s, hs, his⟩ := h.isOpen o ho
      refine ⟨s, ?_, his⟩
      rw [hstatements, List.getElem?_append_left (List.getElem?_eq_some_iff.1 hs).1]
      exact hs
  answers := hanswer.trans h.answers
  beside := h.beside

/-- What does not change the statements matters to no one. -/
theorem Holds.same {os : Multiset OpenStatement} (h : Holds answers e os w)
    (hstatements : m'.statements = w.1.statements) (hanswer : m'.answer = w.1.answer) :
    Holds answers e os (m', w.2) where
  distinct := h.distinct
  isOpen o ho := by
    obtain ⟨s, hs, his⟩ := h.isOpen o ho
    exact ⟨s, by rwa [hstatements], his⟩
  answers := hanswer.trans h.answers
  beside := h.beside

theorem keeps_closeCursor (os : Multiset OpenStatement) :
    (Memory.beside E).closeCursor.Keeps (Holds answers e os) := by
  intro n w h
  show Holds answers e os ((Memory.closeCursor n w.1).2, w.2)
  unfold Memory.closeCursor
  split
  · exact h.same rfl rfl
  · exact h.same rfl rfl

theorem sameBut_setStatement (n : Nat) (m : Memory) (s : MemoryStatement) :
    SameBut n m (m.setStatement n s) :=
  ⟨fun _ hk => List.getElem?_set_ne hk.symm, rfl⟩

theorem getElem?_setStatement {n : Nat} {s : MemoryStatement} (h : m.statements[n]? = some s)
    (s' : MemoryStatement) : (m.setStatement n s').statements[n]? = some s' := by
  show (m.statements.set n s')[n]? = some s'
  rw [List.getElem?_set_self (List.getElem?_eq_some_iff.1 h).1]

theorem statements_takeKeys (m : Memory) (shard : String) (count : UInt64) :
    (m.takeKeys shard count).2.statements = m.statements := by
  unfold takeKeys
  cases m.shard? shard <;> rfl

theorem SameBut.trans {n : Nat} {m'' : Memory} (h : SameBut n m m') (h' : SameBut n m' m'') :
    SameBut n m m'' :=
  ⟨fun k hk => (h'.others k hk).trans (h.others k hk), h'.answer.trans h.answer⟩

theorem sameBut_takeKeys (n : Nat) (m : Memory) (shard : String) (count : UInt64) :
    SameBut n m (m.takeKeys shard count).2 :=
  .of_statements n (statements_takeKeys m shard count) (answer_takeKeys m shard count)

/-! ## Calls on a statement -/

/-- A call succeeds or fails as the reply says, up to `view`, and its statement is `o'` then. -/
def Replies (view : α → β) (reply : Except Error β) (o' : OpenStatement) :
    Program.Post (Multiset OpenStatement) α :=
  fun result os => result.map view = reply.mapError .error ∧ os = {o'}

/-- A call on a statement that is open. -/
theorem owns_onOpen {call : MemoryStatement → Memory → Except Error α × Memory} {view : α → β}
    {reply : Except Error β} (hnumber : o'.number = o.number)
    (h : ∀ s m, m.statements[o.number]? = some s → o.Is s → m.answer = answers →
      (call s m).1.map view = reply ∧ o'.In (call s m).2 ∧ SameBut o.number m (call s m).2) :
    (Program.ofAct ((onOpen o.number call).zoom Prod.fst fun m (w : Memory × E) => (m, w.2))).Owns
      (Holds answers e) (Replies view reply o') {o} := by
  refine Program.owns_ofAct fun w f hw => ⟨{o'}, ?_⟩
  obtain ⟨s, hs, his⟩ := hw.isOpen o (Multiset.mem_add.2 (.inl (Multiset.mem_singleton_self o)))
  obtain ⟨hreply, ho', hsame⟩ := h s w.1 hs his hw.answers
  have hrun : ((onOpen o.number call).zoom Prod.fst fun m (w : Memory × E) => (m, w.2)).run w =
      ((call s w.1).1.mapError .error, (call s w.1).2, w.2) := by
    simp only [onOpen, Act.ofStep, Act.zoom, Act.run_ofRun, hs, his.isOpen]
    rfl
  rw [hrun]
  refine ⟨hw.change hnumber ho' hsame, ?_, rfl⟩
  rw [← hreply]
  cases (call s w.1).1 <;> rfl

/-- A call that leaves all statements as they are. -/
theorem owns_reading {call : MemoryStatement → Memory → Except Error α × Memory} {view : α → β}
    {reply : Except Error β}
    (h : ∀ s m, o.Is s → m.answer = answers → (call s m).1.map view = reply ∧
      (call s m).2.statements = m.statements ∧ (call s m).2.answer = m.answer) :
    (Program.ofAct ((onOpen o.number call).zoom Prod.fst fun m (w : Memory × E) => (m, w.2))).Owns
      (Holds answers e) (Replies view reply o) {o} := by
  refine owns_onOpen rfl fun s m hs his hm => ?_
  obtain ⟨hreply, hstatements, hanswer⟩ := h s m his hm
  refine ⟨hreply, ⟨s, ?_, his⟩, .of_statements _ hstatements hanswer⟩
  rw [hstatements]
  exact hs

/-- The reply to a query. -/
def queryReply (answers : String → String → Except Error Response) (shard sql : String) :
    Except Error Source :=
  match answers shard sql with
  | .ok (.rows columns rows) => .ok (.ofRows columns rows)
  | .ok (.update _ _) => .error (.connection shard ("not a query: " ++ sql))
  | .error e => .error e

/-- The reply to an update: the number of affected rows. -/
def updateReply (answers : String → String → Except Error Response) (shard sql : String) :
    Except Error UInt64 :=
  match answers shard sql with
  | .ok (.update affected _) => .ok affected
  | .ok (.rows _ _) => .error (.connection shard ("not an update: " ++ sql))
  | .error e => .error e

theorem owns_query (o : OpenStatement) :
    (Program.ofAct ((Memory.beside E).query o.number)).Owns (Holds answers e)
      (Replies Source.bare (queryReply answers o.shard o.sql) o) {o} := by
  refine owns_reading fun s m his hm => ?_
  have hrespond : (m.record s .query [s.params]).respond s = answers o.shard o.sql := by
    rw [← his.shard, ← his.sql, ← hm]
    rfl
  dsimp only
  rw [hrespond, queryReply]
  rcases answers o.shard o.sql with _ | _ | _
  · exact ⟨rfl, rfl, rfl⟩
  · exact ⟨rfl, rfl, rfl⟩
  · exact ⟨by rw [his.shard, his.sql]; rfl, rfl, rfl⟩

theorem owns_update (o : OpenStatement) :
    (Program.ofAct ((Memory.beside E).update o.number)).Owns (Holds answers e)
      (Replies UpdateOutcome.affected (updateReply answers o.shard o.sql) o) {o} := by
  refine owns_reading fun s m his hm => ?_
  have hrespond : (m.record s .update [s.params]).respond s = answers o.shard o.sql := by
    rw [← his.shard, ← his.sql, ← hm]
    rfl
  dsimp only
  rw [hrespond, updateReply]
  rcases answers o.shard o.sql with _ | _ | ⟨affected, nativeKeys⟩
  · exact ⟨rfl, rfl, rfl⟩
  · exact ⟨by rw [his.shard, his.sql]; rfl, rfl, rfl⟩
  · cases nativeKeys with
    | false => exact ⟨rfl, rfl, rfl⟩
    | true => exact ⟨rfl, statements_takeKeys _ _ _, answer_takeKeys _ _ _⟩

/-- What an outcome shows: its source without a handle, or its count. -/
def view : Outcome → Source ⊕ UInt64
  | .rows s => .inl s.bare
  | .update outcome => .inr outcome.affected

/-- The reply to an execution of either kind. -/
def executeReply (answers : String → String → Except Error Response) (shard sql : String) :
    Except Error (Source ⊕ UInt64) :=
  match answers shard sql with
  | .ok (.rows columns rows) => .ok (.inl (.ofRows columns rows))
  | .ok (.update affected _) => .ok (.inr affected)
  | .error e => .error e

/-- A query has rows where an execution has them. -/
theorem queryReply_eq_ok_iff {answers : String → String → Except Error Response}
    {shard sql : String} {s : Source} :
    queryReply answers shard sql = .ok s ↔ executeReply answers shard sql = .ok (.inl s) := by
  unfold queryReply executeReply
  rcases answers shard sql with _ | _ | _ <;> simp

/-- An update has a count where an execution has it. -/
theorem updateReply_eq_ok_iff {answers : String → String → Except Error Response}
    {shard sql : String} {n : UInt64} :
    updateReply answers shard sql = .ok n ↔ executeReply answers shard sql = .ok (.inr n) := by
  unfold updateReply executeReply
  rcases answers shard sql with _ | _ | _ <;> simp

theorem owns_execute (o : OpenStatement) :
    (Program.ofAct ((Memory.beside E).execute o.number)).Owns (Holds answers e)
      (Replies view (executeReply answers o.shard o.sql) o) {o} := by
  refine owns_reading fun s m his hm => ?_
  have hrespond : (m.record s .execute [s.params]).respond s = answers o.shard o.sql := by
    rw [← his.shard, ← his.sql, ← hm]
    rfl
  dsimp only
  rw [hrespond, executeReply]
  rcases answers o.shard o.sql with _ | _ | ⟨affected, nativeKeys⟩
  · exact ⟨rfl, rfl, rfl⟩
  · exact ⟨rfl, rfl, rfl⟩
  · cases nativeKeys with
    | false => exact ⟨rfl, rfl, rfl⟩
    | true => exact ⟨rfl, statements_takeKeys _ _ _, answer_takeKeys _ _ _⟩

theorem owns_bind (o : OpenStatement) (params : List Datum) :
    (Program.ofAct ((Memory.beside E).bind o.number params)).Owns (Holds answers e)
      (Replies id (.ok ()) o) {o} := by
  refine owns_onOpen rfl fun s m hs his hm => ⟨rfl, ?_, sameBut_setStatement _ _ _⟩
  exact ⟨_, getElem?_setStatement hs _, his.isOpen, his.shard, his.sql, his.queued⟩

theorem owns_addBatch (o : OpenStatement) :
    (Program.ofAct ((Memory.beside E).addBatch o.number)).Owns (Holds answers e)
      (Replies id (.ok ()) { o with queued := o.queued + 1 }) {o} := by
  refine owns_onOpen rfl fun s m hs his hm => ⟨rfl, ?_, sameBut_setStatement _ _ _⟩
  refine ⟨_, getElem?_setStatement hs _, his.isOpen, his.shard, his.sql, ?_⟩
  rw [List.length_append, his.queued]
  rfl

theorem owns_executeBatch (o : OpenStatement) :
    (Program.ofAct ((Memory.beside E).executeBatch o.number)).Owns (Holds answers e)
      (Replies id ((updateReply answers o.shard o.sql).map (List.replicate o.queued))
        { o with queued := 0 }) {o} := by
  refine owns_onOpen rfl fun s m hs his hm => ?_
  have hrespond : ((m.setStatement o.number { s with batch := [] }).record { s with batch := [] }
      .batch s.batch).respond { s with batch := [] } = answers o.shard o.sql := by
    rw [← his.shard, ← his.sql, ← hm]
    rfl
  have hempty : ∀ batchKeys, OpenStatement.Is { o with queued := 0 }
      { s with batch := [], batchKeys } := fun _ => ⟨his.isOpen, his.shard, his.sql, rfl⟩
  have hset := getElem?_setStatement hs { s with batch := [] }
  have hsame := sameBut_setStatement o.number m { s with batch := [] }
  dsimp only
  rw [hrespond, updateReply]
  -- the memory once the queue is empty and the entries are in the log
  generalize hrecord : (m.setStatement o.number { s with batch := [] }).record
    { s with batch := [] } .batch s.batch = recorded
  replace hset : recorded.statements[o.number]? = some { s with batch := [] } := hrecord ▸ hset
  replace hsame : SameBut o.number m recorded := hrecord ▸ ⟨hsame.others, hsame.answer⟩
  rcases answers o.shard o.sql with _ | _ | ⟨affected, nativeKeys⟩
  · exact ⟨rfl, ⟨_, hset, hempty _⟩, hsame⟩
  · refine ⟨?_, ⟨_, hset, hempty _⟩, hsame⟩
    rw [his.shard, his.sql]
    rfl
  · have hcounts : s.batch.map (fun _ => affected) = List.replicate o.queued affected := by
      rw [List.map_const', his.queued]
    cases nativeKeys with
    | false => exact ⟨congrArg Except.ok hcounts, ⟨_, hset, hempty _⟩, hsame⟩
    | true =>
      rw [← statements_takeKeys recorded s.shard (affected * UInt64.ofNat s.batch.length)] at hset
      exact ⟨congrArg Except.ok hcounts, ⟨_, getElem?_setStatement hset _, hempty _⟩,
        (hsame.trans (sameBut_takeKeys _ _ _ _)).trans (sameBut_setStatement _ _ _)⟩

theorem owns_batchKeys (o : OpenStatement) :
    (Program.ofAct (Act.ofStep fun w =>
      let (keys, w) := (Memory.beside E).batchKeys o.number w
      (.ok keys, w))).Owns (Holds answers e) (Replies (fun _ => ()) (.ok ()) o) {o} := by
  refine Program.owns_ofAct fun w f hw => ⟨{o}, ?_, rfl, rfl⟩
  obtain ⟨s, hs, his⟩ := hw.isOpen o (Multiset.mem_add.2 (.inl (Multiset.mem_singleton_self o)))
  show Holds answers e ({o} + f) ((batchKeys o.number w.1).2, w.2)
  have hkeys : batchKeys o.number w.1 =
      (s.batchKeys, w.1.setStatement o.number { s with batchKeys := [] }) := by
    simp only [batchKeys, hs]
  rw [hkeys]
  exact hw.change rfl ⟨_, getElem?_setStatement hs _, his.isOpen, his.shard, his.sql, his.queued⟩
    (sameBut_setStatement _ _ _)

/-! ## Units of a call -/

/-- A call that goes on after the reply to its first part. -/
theorem owns_bind_replies {γ δ : Type} {view : α → β} {view' : γ → δ} {reply : Except Error β}
    {reply' : Except Error δ} {p : Program (Memory × E) α} {g : α → Program (Memory × E) γ}
    {o'' : OpenStatement} (h : p.Owns (Holds answers e) (Replies view reply o') {o})
    (hok : ∀ a, reply = .ok (view a) →
      (g a).Owns (Holds answers e) (Replies view' reply' o'') {o'})
    (herror : ∀ cause, reply = .error cause → reply' = .error cause ∧ o' = o'') :
    (p >>= g).Owns (Holds answers e) (Replies view' reply' o'') {o} := by
  refine Program.Owns.bind h ?_ ?_
  · rintro a _ ⟨hreply, rfl⟩
    refine hok a ?_
    cases reply with
    | ok b => exact congrArg Except.ok (Except.ok.inj hreply).symm
    | error _ => cases hreply
  · rintro stop _ ⟨hreply, rfl⟩
    cases reply with
    | ok b => cases hreply
    | error cause =>
      cases hreply
      obtain ⟨rfl, rfl⟩ := herror cause rfl
      exact ⟨rfl, rfl⟩

/-- Rows that are read into memory are the same rows. -/
theorem owns_settle (o : OpenStatement) (mode : ConnectionMode) {s : Source}
    {columns : List String} {rows : List Row} (hs : s.bare = .ofRows columns rows) :
    (StatementExecutor.settle (Memory.beside E) mode s).Owns (Holds answers e)
      (Replies Source.bare (.ok (.ofRows columns rows)) o) {o} := by
  cases mode with
  | streaming => exact Program.owns_pure ⟨congrArg Except.ok hs, rfl⟩
  | buffered =>
    refine Program.owns_ofAct fun w f hw => ⟨{o}, ?_, ?_, rfl⟩
    · exact (keeps_closeCursor _).drain s hw
    · show (((s.drain (Memory.beside E).closeCursor w).1.mapError Stop.error).map Source.bare) = _
      rw [Source.drain_of_bare closeCursor_neverFails hs]
      rfl

/-- A query that is run alone. -/
theorem owns_queryUnit (o : OpenStatement) (mode : ConnectionMode) :
    (do StatementExecutor.settle (Memory.beside E) mode
          (← Program.ofAct ((Memory.beside E).query o.number))).Owns (Holds answers e)
      (Replies Source.bare (queryReply answers o.shard o.sql) o) {o} := by
  refine owns_bind_replies (owns_query o) (fun s hs => ?_) fun cause hcause => ⟨hcause, rfl⟩
  obtain ⟨columns, rows, hrows⟩ : ∃ columns rows, s.bare = .ofRows columns rows := by
    unfold queryReply at hs
    split at hs
    · exact ⟨_, _, (Except.ok.inj hs).symm⟩
    · cases hs
    · cases hs
  rw [hs, hrows]
  exact owns_settle o mode hrows

/-- An execution of either kind that is run alone. -/
theorem owns_executeUnit (o : OpenStatement) (mode : ConnectionMode) :
    (do match ← Program.ofAct ((Memory.beside E).execute o.number) with
        | .rows s => return .rows (← StatementExecutor.settle (Memory.beside E) mode s)
        | .update outcome => return .update outcome : Program (Memory × E) Outcome).Owns
      (Holds answers e) (Replies view (executeReply answers o.shard o.sql) o) {o} := by
  refine owns_bind_replies (owns_execute o) (fun outcome houtcome => ?_) fun cause hcause =>
    ⟨hcause, rfl⟩
  rw [houtcome]
  cases outcome with
  | update outcome => exact Program.owns_pure ⟨rfl, rfl⟩
  | rows s =>
    obtain ⟨columns, rows, hrows⟩ : ∃ columns rows, s.bare = .ofRows columns rows := by
      unfold executeReply at houtcome
      split at houtcome
      · exact ⟨_, _, (Sum.inl.inj (Except.ok.inj houtcome)).symm⟩
      · cases houtcome
      · cases houtcome
    refine owns_bind_replies (owns_settle o mode hrows) (fun settled hsettled => ?_)
      (by rintro _ ⟨⟩)
    refine Program.owns_pure ⟨?_, rfl⟩
    rw [Except.ok.inj hsettled] at hrows
    exact congrArg (fun s => Except.ok (Sum.inl s)) hrows.symm

theorem owns_queueEntries (o : OpenStatement) (entries : List BatchEntry) :
    (BatchExecutor.queueEntries (Memory.beside E) o.number entries).Owns (Holds answers e)
      (Replies id (.ok ()) { o with queued := o.queued + entries.length }) {o} := by
  induction entries generalizing o with
  | nil => exact Program.owns_pure ⟨rfl, rfl⟩
  | cons entry rest ih =>
    refine owns_bind_replies (owns_bind o entry.params) (fun _ _ => ?_) (by rintro _ ⟨⟩)
    refine owns_bind_replies (owns_addBatch o) (fun _ _ => ?_) (by rintro _ ⟨⟩)
    have hlength : o.queued + (entry :: rest).length = o.queued + 1 + rest.length := by
      rw [List.length_cons]
      omega
    rw [hlength]
    exact ih { o with queued := o.queued + 1 }

/-- The entries that a batch has for a unit. -/
def entriesOf (units : List BatchUnit) (index : Nat) : List BatchEntry :=
  ((units[index]?).map (·.entries)).getD []

/-- A unit of a batch that is run alone: each of its entries has the same count. -/
theorem owns_batchUnit (units : List BatchUnit) (u : PreparedUnit) :
    (BatchExecutor.runUnit (Memory.beside E) units u).Owns (Holds answers e)
      (Replies Prod.fst ((updateReply answers u.unit.shard u.unit.sql).map
        (List.replicate (entriesOf units u.index).length)) u.opened) {u.opened} := by
  have hqueue : (BatchExecutor.queueEntries (Memory.beside E) u.statement
      (entriesOf units u.index)).Owns (Holds answers e) (Replies id (.ok ())
        { u.opened with queued := 0 + (entriesOf units u.index).length }) {u.opened} :=
    owns_queueEntries u.opened _
  rw [Nat.zero_add] at hqueue
  refine owns_bind_replies hqueue (fun _ _ => ?_) (by rintro _ ⟨⟩)
  refine owns_bind_replies (owns_executeBatch _) (fun counts hcounts => ?_) fun _ hcause =>
    ⟨hcause, rfl⟩
  refine owns_bind_replies (owns_batchKeys u.opened) (fun keys _ => ?_) (by rintro _ ⟨⟩)
  exact Program.owns_pure ⟨(congrArg (Except.mapError Stop.error) hcounts).symm, rfl⟩

end Memory

end Sharding
