import Sharding.Execute.Dispatch
import Sharding.Provider.Basic

/-!
# The calls of a provider

A provider that is logged keeps a log of its calls beside its world, with what it answered where
that matters.  The log tells which statements were prepared, bound, run and closed, in which order.

`Act.Logs place x y v post` says that `x`, with a log in its world, does what `y` does without one,
and that `post` holds of how `y` ends and of the calls that `x` adds to the log.  `place` puts the
log into the world of `x`.  The lemmas take the two actions apart along their steps.
-/

namespace Sharding

variable {W V V' E S α β : Type}

/-- A call of a provider. -/
inductive ProviderCall where
  | connect (shard : String) (reply : Except Stop Connection)
  | prepare (connection : Connection) (sql : String) (reply : Except Stop Nat)
  | bind (statement : Nat) (params : List Datum) (reply : Except Stop Unit)
  /-- A call that runs a statement, or one about its batch. -/
  | run (statement : Nat)
  | close (statement : Nat)
  | closeCursor (cursor : Nat)

namespace ProviderCall

/-- The error of a connection, of a preparation or of a binding that failed. -/
def error? : ProviderCall → Option Error
  | connect _ (.error (.error e)) => some e
  | prepare _ _ (.error (.error e)) => some e
  | bind _ _ (.error (.error e)) => some e
  | _ => none

/-- The statement that was prepared. -/
def prepared? : ProviderCall → Option Nat
  | prepare _ _ (.ok n) => some n
  | _ => none

/-- A call by which a statement is run. -/
def Runs : ProviderCall → Prop
  | run _ => True
  | _ => False

end ProviderCall

/-- An action with a log beside its world, to which it adds an entry. -/
def Act.logged (x : Act W α) (entry : Except Stop α → E) : Act (W × List E) α :=
  Act.ofRun fun (w, log) =>
    let (reply, w) := x.run w
    (reply, w, log ++ [entry reply])

/-- A provider that logs its calls. -/
def Provider.logged (p : Provider W) : Provider (W × List ProviderCall) where
  connect shard := (p.connect shard).logged (.connect shard)
  prepare c sql := (p.prepare c sql).logged (.prepare c sql)
  bind n params := (p.bind n params).logged (.bind n params)
  query n := (p.query n).logged fun _ => .run n
  update n := (p.update n).logged fun _ => .run n
  execute n := (p.execute n).logged fun _ => .run n
  addBatch n := (p.addBatch n).logged fun _ => .run n
  executeBatch n := (p.executeBatch n).logged fun _ => .run n
  batchKeys n q := ((p.batchKeys n q.1).1, (p.batchKeys n q.1).2, q.2 ++ [.run n])
  close n q := ((p.close n q.1).1, (p.close n q.1).2, q.2 ++ [.close n])
  closeCursor n q := ((p.closeCursor n q.1).1, (p.closeCursor n q.1).2, q.2 ++ [.closeCursor n])

/-- The same dispatcher over the provider that logs its calls. -/
def Dispatcher.logged (d : Dispatcher W) : Dispatcher (W × List ProviderCall) where
  provider := d.provider.logged
  token :=
    { isSet := fun q => d.token.isSet q.1
      put := fun set q => (d.token.put set q.1, q.2)
      isSet_put := fun set q => d.token.isSet_put set q.1 }
  workers := d.workers
  connections := d.connections
  turns q := d.turns q.1

/-! ## Actions that log -/

namespace Act

variable {place : V → List E → V'} {v : V} {x : Act V' α} {y : Act V α}
  {f : α → Act V' β} {g : α → Act V β} {post : Except Stop β → V → List E → Prop}

/-- `x` does what `y` does and adds some entries to the log, whatever is in it already. -/
def Logs (place : V → List E → V') (x : Act V' α) (y : Act V α) (v : V)
    (post : Except Stop α → V → List E → Prop) : Prop :=
  ∃ entries, (∀ log, x.run (place v log) = ((y.run v).1, place (y.run v).2 (log ++ entries))) ∧
    post (y.run v).1 (y.run v).2 entries

theorem Logs.mono {post post' : Except Stop α → V → List E → Prop} (h : Logs place x y v post)
    (hpost : ∀ reply v' entries, post reply v' entries → post' reply v' entries) :
    Logs place x y v post' := by
  obtain ⟨entries, hrun, hentries⟩ := h
  exact ⟨entries, hrun, hpost _ _ _ hentries⟩

theorem logs_pure {a : α} {post : Except Stop α → V → List E → Prop} (h : post (.ok a) v []) :
    Logs place (pure a) (pure a) v post :=
  ⟨[], fun log => by simp, h⟩

theorem logs_fail {e : Error} {post : Except Stop α → V → List E → Prop}
    (h : post (.error (.error e)) v []) : Logs place (fail e) (fail e) v post :=
  ⟨[], fun log => by simp, h⟩

/-- A call that is logged leaves its entry. -/
theorem logs_logged (x : Act W α) (entry : Except Stop α → E) (w : W) :
    Logs Prod.mk (x.logged entry) x w fun reply _ entries => entries = [entry reply] :=
  ⟨[entry (x.run w).1], fun _ => rfl, rfl⟩

/-- The entries of a sequence are those of its parts, one after the other. -/
theorem Logs.bind {mid : Except Stop α → V → List E → Prop} (h : Logs place x y v mid)
    (hok : ∀ a v' entries, mid (.ok a) v' entries →
      Logs place (f a) (g a) v' fun reply v'' rest => post reply v'' (entries ++ rest))
    (hstop : ∀ stop v' entries, mid (.error stop) v' entries → post (.error stop) v' entries) :
    Logs place (x >>= f) (y >>= g) v post := by
  obtain ⟨entries, hrun, hentries⟩ := h
  rcases hy : y.run v with ⟨stop | a, v'⟩
  all_goals rw [hy] at hrun hentries
  · have hplain : (y >>= g).run v = (.error stop, v') := by rw [run_bind, hy]
    refine ⟨entries, fun log => ?_, ?_⟩
    · rw [run_bind, hrun, hplain]
    · rw [hplain]
      exact hstop stop v' entries hentries
  · have hplain : (y >>= g).run v = (g a).run v' := by rw [run_bind, hy]
    obtain ⟨rest, hrest, hpost⟩ := hok a v' entries hentries
    refine ⟨entries ++ rest, fun log => ?_, ?_⟩
    · rw [run_bind, hrun, hplain]
      simp only [hrest, List.append_assoc]
    · rw [hplain]
      exact hpost

/-- A sequence that starts with an effect, of which the log has some entries. -/
theorem logs_effect_bind {h : V → V} {h' : V' → V'} {rest : Unit → Act V β}
    {rest' : Unit → Act V' β} (entries : List E)
    (hh : ∀ log, h' (place v log) = place (h v) (log ++ entries))
    (hrest : Logs place (rest' ()) (rest ()) (h v) fun reply v' more =>
      post reply v' (entries ++ more)) :
    Logs place (effect h' >>= rest') (effect h >>= rest) v post := by
  obtain ⟨more, hrun, hpost⟩ := hrest
  refine ⟨entries ++ more, fun log => ?_, hpost⟩
  show (rest' ()).run (h' (place v log)) = _
  rw [hh, hrun, List.append_assoc]
  rfl

/-- A sequence that goes on with what its first part answers, unless that crashes. -/
theorem Logs.bind_attempt {f : Except Error α → Act V' β} {g : Except Error α → Act V β}
    {mid : Except Stop α → V → List E → Prop} (h : Logs place x y v mid)
    (hreply : ∀ reply v' entries, mid (reply.mapError .error) v' entries →
      Logs place (f reply) (g reply) v' fun reply v'' rest => post reply v'' (entries ++ rest))
    (hcrash : ∀ v' entries, mid (.error .crash) v' entries → post (.error .crash) v' entries) :
    Logs place (x.attempt >>= f) (y.attempt >>= g) v post := by
  have hattempt : Logs place x.attempt y.attempt v fun reply v' entries =>
      match reply with
      | .ok reply => mid (reply.mapError .error) v' entries
      | .error stop => stop = .crash ∧ mid (.error .crash) v' entries := by
    obtain ⟨entries, hrun, hentries⟩ := h
    refine ⟨entries, fun log => ?_, ?_⟩
    · simp only [attempt, run_ofRun, hrun]
      rcases y.run v with ⟨⟨_ | _⟩ | _, v'⟩ <;> rfl
    · simp only [attempt, run_ofRun]
      rcases hy : y.run v with ⟨⟨_ | _⟩ | _, v'⟩ <;> rw [hy] at hentries
      · exact hentries
      · exact ⟨rfl, hentries⟩
      · exact hentries
  refine hattempt.bind hreply fun stop v' entries hmid => ?_
  obtain ⟨rfl, hmid⟩ := hmid
  exact hcrash v' entries hmid

/-! ## A state beside the world -/

/-- The place of the log beside a state and a world. -/
def besideState (q : S × W) (log : List E) : S × W × List E :=
  (q.1, q.2, log)

theorem Logs.outside {s : S} {w : W} {x : Act (W × List E) α} {y : Act W α}
    {post : Except Stop α → S × W → List E → Prop}
    (h : Logs Prod.mk x y w fun reply w' entries => post reply (s, w') entries) :
    Logs besideState x.outside y.outside (s, w) post := by
  obtain ⟨entries, hrun, hpost⟩ := h
  refine ⟨entries, fun log => ?_, hpost⟩
  show (let (r, q) := x.run (w, log); (r, s, q)) = _
  rw [hrun]
  rfl

theorem logs_state_bind {q : S × W} {rest : S → Act (S × W) β} {rest' : S → Act (S × W × List E) β}
    {post : Except Stop β → S × W → List E → Prop}
    (h : Logs besideState (rest' q.1) (rest q.1) q post) :
    Logs besideState (state >>= rest') (state >>= rest) q post :=
  h

theorem logs_update_bind {f : S → S} {q : S × W} {rest : Unit → Act (S × W) β}
    {rest' : Unit → Act (S × W × List E) β} {post : Except Stop β → S × W → List E → Prop}
    (h : Logs besideState (rest' ()) (rest ()) (f q.1, q.2) post) :
    Logs besideState (update f >>= rest') (update f >>= rest) q post :=
  h

end Act

end Sharding
