import Sharding.Proofs.Route.Units
import Sharding.Proofs.Session.Calls
import Sharding.Provider.Memory

/-!
# Phases of a logical statement

Between any two calls a session is `Session.Sound`: its phase tells whether calls are queued, and
whether there may be a result set and physical statements.  Every step of the state machine keeps
it that way, so it holds after every run, whatever the calls answered (`session_sound`).

A statement that is closed holds nothing.  It refuses calls without touching the world, and it stays
as it is.
-/

namespace Sharding

variable {W α β : Type} {s s' : Session} {w : W}

/-! ## The invariant -/

/-- What holds of a session between any two calls. -/
structure Session.Sound (s : Session) : Prop where
  /-- Routing and running take place within a call. -/
  settled : s.phase ≠ .routed ∧ s.phase ≠ .executing
  queued : 0 < s.batchCount ↔ s.phase = .batchAccumulating
  rows : s.resultSet ≠ none → s.phase = .queryCompleted
  held : 0 < s.executor.statementCount → s.phase = .queryCompleted
  /-- A batch holds physical statements only while it is executed. -/
  released : s.batch.statementCount = 0
  unbound : s.phase = .closed → s.params = []

namespace Session

theorem sound_new : ({} : Session).Sound where
  settled := ⟨nofun, nofun⟩
  queued := ⟨nofun, nofun⟩
  rows h := (h rfl).elim
  held := nofun
  released := rfl
  unbound := nofun

theorem statementCount_of_groups {x : BatchExecutor} (h : x.groups = []) :
    x.statementCount = 0 := by
  rw [BatchExecutor.statementCount, h]
  rfl

/-- A session without results and without queued calls is sound in every phase that has neither. -/
theorem sound_of_empty (hphase : s.phase = .idle ∨ s.phase = .updateCompleted ∨ s.phase = .closed)
    (hrows : s.resultSet = none) (hexecutor : s.executor = {}) (hbatch : s.batch.calls = 0)
    (hgroups : s.batch.statementCount = 0) (hparams : s.phase = .closed → s.params = []) :
    s.Sound where
  settled := by rcases hphase with h | h | h <;> rw [h] <;> exact ⟨nofun, nofun⟩
  queued := by
    refine ⟨fun h => ?_, fun h => ?_⟩
    · rw [batchCount, hbatch] at h
      cases h
    · rw [h] at hphase
      simp at hphase
  rows h := (h hrows).elim
  held h := by
    rw [hexecutor] at h
    cases h
  released := hgroups
  unbound := hparams

/-- Giving up the results leaves the phase to what is queued. -/
theorem Sound.givenUp (h : s.Sound) : s.givenUp.Sound where
  settled := h.settled
  queued := h.queued
  rows hrows := (hrows rfl).elim
  held := nofun
  released := h.released
  unbound := h.unbound

/-- Every step keeps a session sound. -/
theorem Step.sound {isQuery : Bool} {request : Request} {reply : Except Error Answer}
    (hstep : Step isQuery request s reply s') (h : s.Sound) : s'.Sound := by
  cases hstep with
  | refused | closedAgain | cancelled | unread | keysAsked | unqueued => exact h
  | bound hopen => exact { h with unbound := fun hclosed => (hopen hclosed).elim }
  | read _ hphase => exact { h with rows := fun _ => hphase }
  | interrupted => exact h.givenUp
  | failed => exact sound_of_empty (.inl rfl) rfl rfl rfl rfl nofun
  | updated => exact sound_of_empty (.inr (.inl rfl)) rfl rfl rfl rfl nofun
  | closed => exact sound_of_empty (.inr (.inr rfl)) rfl rfl rfl rfl fun _ => rfl
  | queried =>
    exact ⟨⟨nofun, nofun⟩, ⟨nofun, nofun⟩, fun _ => rfl, fun _ => rfl, rfl, nofun⟩
  | unbegun _ hopen hphase =>
    exact { h.givenUp with
      queued := ⟨nofun, fun hqueued => (hphase hqueued).elim⟩
      released := rfl }
  | begun _ _ _ hcalls hgroups =>
    have hpos := Nat.lt_of_lt_of_eq Nat.zero_lt_one hcalls.symm
    exact ⟨⟨nofun, nofun⟩, ⟨fun _ => rfl, fun _ => hpos⟩, fun h => (h rfl).elim, nofun,
      statementCount_of_groups hgroups, nofun⟩
  | queued hphase hcalls hgroups =>
    have hpos := Nat.lt_of_lt_of_eq (Nat.succ_pos _) hcalls.symm
    have hreleased := h.released
    rw [BatchExecutor.statementCount, ← hgroups] at hreleased
    exact ⟨h.settled, ⟨fun _ => hphase, fun _ => hpos⟩, h.rows, h.held, hreleased, fun _ => rfl⟩
  | nothingQueued hopen hphase =>
    have hcalls : ¬ 0 < s.batchCount := fun hcalls => hphase (h.queued.1 hcalls)
    exact sound_of_empty (.inl rfl) rfl rfl (Nat.eq_zero_of_not_pos hcalls) h.released nofun
  | flushed hphase hcalls hgroups =>
    refine ⟨⟨nofun, nofun⟩, ⟨fun hqueued => ?_, nofun⟩, fun hrows => ?_, fun hheld => ?_,
      statementCount_of_groups hgroups, nofun⟩
    · exact (Nat.not_lt_zero 0 (Nat.lt_of_lt_of_eq hqueued hcalls)).elim
    · cases hphase.symm.trans (h.rows hrows)
    · cases hphase.symm.trans (h.held hheld)
  | discarded hopen =>
    by_cases hphase : s.phase = .batchAccumulating
    · rw [if_pos hphase]
      refine ⟨⟨nofun, nofun⟩, ⟨nofun, nofun⟩, fun hrows => ?_, fun hheld => ?_, rfl, nofun⟩
      · cases hphase.symm.trans (h.rows hrows)
      · cases hphase.symm.trans (h.held hheld)
    · rw [if_neg hphase]
      exact { h with
        queued := ⟨nofun, fun hqueued => (hphase hqueued).elim⟩
        released := rfl }

/-- A step of a closed session leads nowhere. -/
theorem Step.eq_of_closed {isQuery : Bool} {request : Request} {reply : Except Error Answer}
    (hstep : Step isQuery request s reply s') (h : s.phase = .closed) : s' = s := by
  cases hstep with
  | refused | closedAgain | cancelled | unread | keysAsked | unqueued => rfl
  | read _ hphase => cases h.symm.trans hphase
  | queued hphase => cases h.symm.trans hphase
  | flushed hphase => cases h.symm.trans hphase
  | bound hopen => exact (hopen h).elim
  | interrupted _ hopen => exact (hopen h).elim
  | failed _ hopen => exact (hopen h).elim
  | queried _ hopen => exact (hopen h).elim
  | updated _ hopen => exact (hopen h).elim
  | unbegun _ hopen => exact (hopen h).elim
  | begun _ hopen => exact (hopen h).elim
  | nothingQueued hopen => exact (hopen h).elim
  | discarded hopen => exact (hopen h).elim
  | closed hopen => exact (hopen h).elim

end Session

namespace LogicalStatement

variable {l : LogicalStatement W}

/-- A call keeps a session sound, whatever it answers. -/
theorem sound_ends (h : s.Sound) (request : Request) :
    (l.perform request).Ends (s, w) fun _ p => p.1.Sound :=
  (perform_ends request).mono fun _ _ hstep => hstep.sound h

/-! ## Closed statements -/

/-- The call is refused because the statement is closed.  It leaves the world as it is. -/
def Refuses (x : Call W α) (s : Session) : Prop :=
  ∀ w, x.run (s, w) = (.error (.error (.state .statementClosed)), (s, w))

theorem Refuses.bind {x : Call W α} {f : α → Call W β} (h : Refuses x s) :
    Refuses (x >>= f) s := by
  intro w
  rw [Act.run_bind, h w]

theorem refuses_ensureOpen (h : s.phase = .closed) : Refuses (ensureOpen : Call W Unit) s := by
  intro w
  have hclosed : s.isClosed = true := by rw [Session.isClosed, h]; rfl
  rw [ensureOpen, Act.run_bind]
  show Act.run (if s.isClosed = true then _ else _) (s, w) = _
  rw [if_pos hclosed]
  rfl

/-- A closed statement refuses every call but the close. -/
theorem perform_refuses (h : s.phase = .closed) {request : Request}
    (hneeds : request.needsOpen = true) : Refuses (l.perform request) s := by
  have hensure := refuses_ensureOpen (W := W) h
  cases request with
  | cancel => cases hneeds
  | close => cases hneeds
  | setParameter index value => exact hensure.bind.bind
  | setParameters params => exact hensure.bind.bind
  | clearParameters => exact hensure.bind.bind
  | executeQuery => exact hensure.bind.bind.bind
  | executeUpdate => exact hensure.bind.bind.bind
  | execute => exact hensure.bind.bind.bind
  | resultSet => exact hensure.bind.bind
  | nextRow => exact hensure.bind.bind.bind
  | allRows => exact hensure.bind.bind.bind
  | closeResultSet => exact hensure.bind.bind.bind
  | generatedKeys => exact hensure.bind.bind
  | addBatch => exact hensure.bind.bind
  | executeBatch => exact hensure.bind.bind
  | clearBatch => exact hensure.bind.bind

/-- A closed session stays as it is. -/
theorem eq_of_closed {history : History} {p q : Session × W} (h : Runs l history p q)
    (hclosed : p.1.phase = .closed) : q.1 = p.1 := by
  refine h.induct (motive := fun _ q => q.1 = p.1) rfl ?_
  rintro _ ⟨s, w⟩ request rfl
  exact (perform_ends request).mono fun _ _ hstep => hstep.eq_of_closed hclosed

end LogicalStatement

/-- Between calls a session is sound.  Once it is closed, nothing is left of it, every call on it is
refused and leaves the world alone, and no call opens it again. -/
theorem session_sound {l : LogicalStatement W} {history : History} {w₀ : W}
    (h : Runs l history ({}, w₀) (s, w)) :
    s.Sound ∧
      (s.phase = .closed →
        s.resultSet = none ∧ s.statementCount = 0 ∧ s.batchCount = 0 ∧ s.params = [] ∧
        (∀ request : Request, request.needsOpen = true →
          (l.perform request).run (s, w) = (.error (.error (.state .statementClosed)), (s, w))) ∧
        ∀ later p, Runs l later (s, w) p → p.1 = s) := by
  have hsound : s.Sound := h.induct (motive := fun _ p => p.1.Sound) Session.sound_new
    fun _ p request hp => LogicalStatement.sound_ends (s := p.1) hp request
  refine ⟨hsound, fun hclosed => ⟨?_, ?_, ?_, hsound.unbound hclosed, ?_, ?_⟩⟩
  · by_contra hrows
    cases hclosed.symm.trans (hsound.rows hrows)
  · have hexecutor : ¬ 0 < s.executor.statementCount := fun hheld => by
      cases hclosed.symm.trans (hsound.held hheld)
    have hbatch := hsound.released
    rw [Session.statementCount]
    omega
  · by_contra hcalls
    cases hclosed.symm.trans (hsound.queued.1 (Nat.pos_of_ne_zero hcalls))
  · exact fun request hneeds => LogicalStatement.perform_refuses hclosed hneeds w
  · exact fun later p hlater => LogicalStatement.eq_of_closed hlater hclosed

/-- The change of the status of all orders, as a statement on two shards in memory. -/
def statusUpdate : LogicalStatement (Memory × Bool) where
  statement := .update newStatus
  router :=
    { rule := { tables := [{ name := "t_order"
                             nodes := [⟨"ds_0", "t_order_0"⟩, ⟨"ds_1", "t_order_1"⟩] }] }
      keys := ⟨fun _ => Act.fail .cancelled⟩ }
  dispatcher :=
    { provider := Memory.provider.zoom Prod.fst fun m w => (m, w.2)
      token := { isSet := Prod.snd, put := fun b w => (w.1, b), isSet_put := fun _ _ => rfl }
      workers := 2
      connections := 1
      turns := fun _ => [1, 0, 1] }
  maxRows := 100
  accumulate := true
  returnsKeys := false

/-- Two shards, on which the update changes three rows and four rows. -/
def twoShards : Memory × Bool :=
  (((Memory.ofShards ["ds_0", "ds_1"]).script "ds_0" "UPDATE" (.ok (.update 3 false))).script "ds_1"
    "UPDATE" (.ok (.update 4 false)), false)

/-- The update succeeds, and the statement is closed with a call queued. -/
def closedInBatch : History × (Session × (Memory × Bool)) :=
  statusUpdate.play
    [.setParameters [.text "paid"], .executeUpdate, .setParameters [.text "sent"], .addBatch,
      .close] ({}, twoShards)

theorem session_sound_close :
    closedInBatch.1.length = 5 ∧ closedInBatch.2.1.phase = .closed ∧
      closedInBatch.2.1.Sound ∧ closedInBatch.2.1.params = [] ∧
      (statusUpdate.perform .executeUpdate).run closedInBatch.2 =
        (.error (.error (.state .statementClosed)), closedInBatch.2) := by
  have hrun : (closedInBatch.1.length, closedInBatch.2.1.phase) = (5, .closed) := by cbv
  obtain ⟨hlength, hclosed⟩ := Prod.mk.inj hrun
  obtain ⟨hsound, hempty⟩ := session_sound (runs_play statusUpdate _ ({}, twoShards))
  obtain ⟨-, -, -, hparams, hrefused, -⟩ := hempty hclosed
  exact ⟨hlength, hclosed, hsound, hparams, hrefused _ rfl⟩

end Sharding
