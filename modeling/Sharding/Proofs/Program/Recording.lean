import Sharding.Proofs.Interleaving
import Sharding.Proofs.Program.Owning

/-!
# Programs that record what they do

What a program does can be told from a log, which is any list that the world has and calls only
append to.  `p.Records good log result entries` says that the program `p` keeps an invariant `good`
of the world, which everybody else keeps as well; that its calls append `entries`, among the entries
of the others; and that it ends with `result`.

When such programs are run at a time, each of them ends with its result, and what is appended to
the log is an interleaving of their entries (`interleave_records`).
-/

namespace Sharding

namespace Program

variable {W α β ε : Type} {good : W → Prop} {log : W → List ε}

/-- The calls of the program keep `good` and append the entries to the log.  It ends with
`result`. -/
def Records (good : W → Prop) (log : W → List ε) (result : Except Stop α) :
    Program W α → List ε → Prop
  | done r, entries => r = result ∧ entries = []
  | call effect next, entries => ∀ w, good w →
      ∃ first rest, entries = first ++ rest ∧ good (effect w) ∧ log (effect w) = log w ++ first ∧
        (next w).Records good log result rest

variable {p : Program W α} {result : Except Stop α} {entries : List ε}

theorem records_pure (a : α) : (pure a : Program W α).Records good log (.ok a) [] :=
  ⟨rfl, rfl⟩

/-- A call that has one result in every world. -/
theorem records_ofAct {x : Act W α}
    (h : ∀ w, good w → (x.run w).1 = result ∧ good (x.run w).2 ∧
      log (x.run w).2 = log w ++ entries) : (ofAct x).Records good log result entries := by
  intro w hw
  obtain ⟨hresult, hgood, hlog⟩ := h w hw
  exact ⟨entries, [], (List.append_nil _).symm, hgood, hlog, hresult, rfl⟩

theorem Records.bind {a : α} {g : α → Program W β} {result : Except Stop β} {entries' : List ε}
    (h : p.Records good log (.ok a) entries) (hrest : (g a).Records good log result entries') :
    (p >>= g).Records good log result (entries ++ entries') := by
  change (p.bind g).Records good log result _
  induction p generalizing entries with
  | done r =>
    obtain ⟨rfl, rfl⟩ := h
    exact hrest
  | call effect next ih =>
    intro w hw
    obtain ⟨first, rest, rfl, hgood, hlog, hnext⟩ := h w hw
    exact ⟨first, rest ++ entries', List.append_assoc .., hgood, hlog, ih w hnext⟩

theorem Records.attempt {reply : Except Error α}
    (h : p.Records good log (reply.mapError .error) entries) :
    p.attempt.Records good log (.ok reply) entries := by
  induction p generalizing entries with
  | done r =>
    obtain ⟨rfl, rfl⟩ := h
    cases reply <;> exact ⟨rfl, rfl⟩
  | call effect next ih =>
    intro w hw
    obtain ⟨first, rest, rfl, hgood, hlog, hnext⟩ := h w hw
    exact ⟨first, rest, rfl, hgood, hlog, ih w hnext⟩

/-- Programs that are run one after the other record their entries in this order. -/
theorem records_mapM {σ : Type} {g : σ → Program W β} {value : σ → β} {entries : σ → List ε}
    {xs : List σ} (h : ∀ x ∈ xs, (g x).Records good log (.ok (value x)) (entries x)) :
    (xs.mapM g).Records good log (.ok (xs.map value)) (xs.flatMap entries) := by
  induction xs with
  | nil => exact records_pure []
  | cons x xs ih =>
    rw [List.mapM_cons, List.map_cons, List.flatMap_cons]
    refine (h x List.mem_cons_self).bind ?_
    rw [← List.append_nil (xs.flatMap entries)]
    exact (ih fun x hx => h x (List.mem_cons_of_mem _ hx)).bind (records_pure _)

/-! ## Runs -/

/-- A program that runs without a break. -/
theorem Records.run (h : p.Records good log result entries) {w : W} (hw : good w) :
    (p.run w).1 = result ∧ good (p.run w).2 ∧ log (p.run w).2 = log w ++ entries := by
  induction p generalizing entries w with
  | done r =>
    obtain ⟨rfl, rfl⟩ := h
    exact ⟨rfl, hw, (List.append_nil _).symm⟩
  | call effect next ih =>
    obtain ⟨first, rest, rfl, hgood, hlog, hnext⟩ := h w hw
    rw [← List.append_assoc, ← hlog]
    exact ih w hnext hgood

theorem Records.step (h : p.Records good log result entries) {w : W} (hw : good w) :
    ∃ first rest, entries = first ++ rest ∧ good (p.step w).2 ∧
      log (p.step w).2 = log w ++ first ∧ (p.step w).1.Records good log result rest := by
  cases p with
  | done r => exact ⟨[], entries, rfl, hw, (List.append_nil _).symm, h⟩
  | call effect next => exact h w hw

/-- What a program is to end with, and its entries. -/
abbrev Record (α ε : Type) := Except Stop α × List ε

/-- Each program records what is laid down for it. -/
def Recording (good : W → Prop) (log : W → List ε) : List (Program W α) → List (Record α ε) → Prop :=
  List.Forall₂ fun p record => p.Records good log record.1 record.2

variable {ps : List (Program W α)} {records : List (Record α ε)}

theorem runEach_records (h : Recording good log ps records) {w : W} (hw : good w) :
    (runEach ps w).1 = records.map (·.1) ∧ good (runEach ps w).2 ∧
      log (runEach ps w).2 = log w ++ (records.map (·.2)).flatten := by
  induction h generalizing w with
  | nil => exact ⟨rfl, hw, (List.append_nil _).symm⟩
  | cons hp _ ih =>
    obtain ⟨hresult, hgood, hlog⟩ := hp.run hw
    obtain ⟨hresults, hgood', hlog'⟩ := ih hgood
    rw [hlog, List.append_assoc] at hlog'
    refine ⟨?_, hgood', hlog'⟩
    rw [List.map_cons, ← hresult, ← hresults]
    rfl

/-- One program makes its next call, and takes the first of the entries that are left of it. -/
theorem step_records (h : Recording good log ps records) {i : Nat} (hi : ps[i]? = some p) {w : W}
    (hw : good w) :
    ∃ before result first rest after, records = before ++ (result, first ++ rest) :: after ∧
      good (p.step w).2 ∧ log (p.step w).2 = log w ++ first ∧
      Recording good log (ps.set i (p.step w).1) (before ++ (result, rest) :: after) := by
  induction h generalizing i with
  | nil => cases hi
  | @cons q record qs records hq hqs ih =>
    cases i with
    | zero =>
      cases hi
      obtain ⟨first, rest, hentries, hgood, hlog, hnext⟩ := Records.step hq hw
      refine ⟨[], record.1, first, rest, records, ?_, hgood, hlog, .cons hnext hqs⟩
      rw [List.nil_append, ← hentries]
    | succ i =>
      obtain ⟨before, result, first, rest, after, hrecords, hgood, hlog, hnext⟩ := ih hi
      refine ⟨record :: before, result, first, rest, after, ?_, hgood, hlog, .cons hq hnext⟩
      rw [hrecords, List.cons_append]

/-- However the calls are interleaved, the programs end as each of them would alone, and their
entries are interleaved. -/
theorem interleave_records (turns : List Nat) (h : Recording good log ps records) {w : W}
    (hw : good w) :
    ∃ out, (interleave turns ps w).1 = records.map (·.1) ∧ good (interleave turns ps w).2 ∧
      log (interleave turns ps w).2 = log w ++ out ∧ Interleaves (records.map (·.2)) out := by
  induction turns generalizing ps records w with
  | nil =>
    obtain ⟨hresults, hgood, hlog⟩ := runEach_records h hw
    exact ⟨_, hresults, hgood, hlog, .flatten _⟩
  | cons i turns ih =>
    rw [interleave]
    cases hi : ps[i]? with
    | none => exact ih h hw
    | some p =>
      obtain ⟨before, result, first, rest, after, rfl, hgood, hlog, hnext⟩ := step_records h hi hw
      obtain ⟨out, hresults, hgood', hlog', hout⟩ := ih hnext hgood
      rw [hlog, List.append_assoc] at hlog'
      refine ⟨first ++ out, ?_, hgood', hlog', ?_⟩
      · rw [List.map_append, List.map_cons] at hresults ⊢
        exact hresults
      · rw [List.map_append, List.map_cons] at hout ⊢
        exact hout.takeAll

end Program

end Sharding
