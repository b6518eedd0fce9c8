import Sharding.Proofs.Merge.Reading

/-!
# Reading on after failures

`Reader.Answers closer r w answers` says what the calls of a reader answer up to its end, when it is
read on also after a call that failed: each answer is a row or an error.

Sources that are read one after the other answer with all that their reads deliver, so a read that
fails costs nothing but the call (`Reader.answers_concat`).  A page counts every call of its stream,
those that fail as well: `Window.cut` is what is left of the answers of the stream
(`Reader.Answers.page`).
-/

namespace Sharding

variable {W : Type} {closer : Closer W}

/-- The rows among some answers. -/
def rowsIn (answers : List (Except Error Row)) : List Row :=
  answers.filterMap (·.toOption)

@[simp] theorem rowsIn_nil : rowsIn [] = [] := rfl

@[simp] theorem rowsIn_ok (row : Row) (answers : List (Except Error Row)) :
    rowsIn (.ok row :: answers) = row :: rowsIn answers := rfl

@[simp] theorem rowsIn_error (e : Error) (answers : List (Except Error Row)) :
    rowsIn (.error e :: answers) = rowsIn answers := rfl

@[simp] theorem rowsIn_append (xs ys : List (Except Error Row)) :
    rowsIn (xs ++ ys) = rowsIn xs ++ rowsIn ys :=
  List.filterMap_append

@[simp] theorem rowsIn_map_ok (rows : List Row) : rowsIn (rows.map .ok) = rows := by
  induction rows with
  | nil => rfl
  | cons row rows ih => rw [List.map_cons, rowsIn_ok, ih]

/-- The source if no read of it failed. -/
def Source.healed (s : Source) : Source :=
  { s with reads := (rowsIn s.reads).map .ok }

theorem rowsIn_flatMap_healed (sources : List Source) :
    rowsIn ((sources.map Source.healed).flatMap (·.reads)) =
      rowsIn (sources.flatMap (·.reads)) := by
  induction sources with
  | nil => rfl
  | cons s sources ih => simp [Source.healed, ih]

/-! ## Readers -/

/-- What the calls of a reader answer up to its end. -/
inductive Reader.Answers (closer : Closer W) : Reader → W → List (Except Error Row) → Prop where
  | finish {r r' w w'} : r.next closer w = (.ok none, r', w') → Answers closer r w []
  | row {r r' w w' row answers} : r.next closer w = (.ok (some row), r', w') →
      Answers closer r' w' answers → Answers closer r w (.ok row :: answers)
  | failure {r r' w w' e answers} : r.next closer w = (.error e, r', w') →
      Answers closer r' w' answers → Answers closer r w (.error e :: answers)

namespace Reader

variable {r r' : Reader} {s : Stream} {w w' : W} {answers answers' : List (Except Error Row)}

/-- A reader has one list of answers. -/
theorem Answers.unique (h : Answers closer r w answers) (h' : Answers closer r w answers') :
    answers = answers' := by
  induction h generalizing answers' with
  | finish hnext =>
    cases h' with
    | finish _ => rfl
    | row hnext' _ => simp [hnext] at hnext'
    | failure hnext' _ => simp [hnext] at hnext'
  | row hnext _ ih =>
    cases h' with
    | finish hnext' => simp [hnext] at hnext'
    | row hnext' hrest =>
      rw [hnext] at hnext'
      cases hnext'
      rw [ih hrest]
    | failure hnext' _ => simp [hnext] at hnext'
  | failure hnext _ ih =>
    cases h' with
    | finish hnext' => simp [hnext] at hnext'
    | row hnext' _ => simp [hnext] at hnext'
    | failure hnext' hrest =>
      rw [hnext] at hnext'
      cases hnext'
      rw [ih hrest]

/-- What a reader answers depends on its next call alone. -/
theorem Answers.of_next_eq (h : Answers closer r' w' answers)
    (hnext : r.next closer w = r'.next closer w') : Answers closer r w answers := by
  cases h with
  | finish h => exact .finish (hnext.trans h)
  | row h hrest => exact .row (hnext.trans h) hrest
  | failure h hrest => exact .failure (hnext.trans h) hrest

/-! ## Sources one after the other -/

/-- Every read is answered, one source after the other. -/
theorem answers_concat (hcloser : ∀ handle w, (closer handle w).1 = .ok ()) (columns : List String)
    {pending : List Source} (hpending : ∀ s ∈ pending, s.broken = none) (finished : List Source)
    (w : W) :
    Answers closer ⟨.concat ⟨columns, finished, pending⟩, none⟩ w
      (pending.flatMap (·.reads)) := by
  induction pending generalizing finished w with
  | nil => exact .finish rfl
  | cons s rest ih =>
    obtain ⟨hs, hrest⟩ := List.forall_mem_cons.1 hpending
    obtain ⟨scolumns, reads, broken, handle, retains⟩ := s
    obtain rfl : broken = none := hs
    rw [List.flatMap_cons]
    induction reads with
    | nil =>
      obtain ⟨t, w', hclose⟩ : ∃ t w', Source.close closer
          ⟨scolumns, [], none, handle, retains⟩ w = (.ok (), t, w') := by
        unfold Source.close
        cases handle with
        | none => exact ⟨_, _, rfl⟩
        | some handle => exact ⟨_, _, Prod.ext (hcloser handle w) rfl⟩
      refine (ih hrest (finished ++ [t]) w').of_next_eq ?_
      simp only [next, Stream.next, Concat.next, Concat.nextFrom, Source.read, hclose]
    | cons answer reads ihreads =>
      have hreads := ihreads (List.forall_mem_cons.2 ⟨rfl, hrest⟩)
      cases answer with
      | ok row => exact .row rfl hreads
      | error e => exact .failure rfl hreads

end Reader

/-! ## Pages -/

/-- What a page leaves of the answers of its stream: the errors before it, and its answers. -/
def Window.cut (window : Window) (answers : List (Except Error Row)) : List (Except Error Row) :=
  (answers.take window.skip).filter (·.toOption.isNone) ++
    (answers.drop window.skip).take window.take

/-- Without a page, a stream is read as it is. -/
theorem Reader.exists_of_next {s : Stream} {w w' : W} {found : Except Error (Option Row)}
    {r : Reader} (h : Reader.next closer ⟨s, none⟩ w = (found, r, w')) :
    ∃ s', s.next closer w = (found, s', w') ∧ r = ⟨s', none⟩ := by
  cases h
  exact ⟨_, rfl, rfl⟩

/-- A page counts the failures of its stream like rows. -/
theorem Reader.Answers.page {s : Stream} {w : W} {answers : List (Except Error Row)}
    (h : Answers closer ⟨s, none⟩ w answers) (skip take : Nat) :
    Answers closer ⟨s, some ⟨skip, take⟩⟩ w (Window.cut ⟨skip, take⟩ answers) := by
  generalize hr : Reader.mk s none = r at h
  induction h generalizing s skip take with
  | finish hnext =>
    subst hr
    obtain ⟨s', hstep, rfl⟩ := exists_of_next hnext
    rw [show Window.cut ⟨skip, take⟩ [] = [] by simp [Window.cut]]
    cases skip with
    | zero =>
      cases take with
      | zero => exact .finish rfl
      | succ take => exact .finish (by simp only [next, nextIn, hstep]; rfl)
    | succ skip => exact .finish (by simp only [next, nextIn, hstep]; rfl)
  | row hnext hrest ih =>
    subst hr
    obtain ⟨s', hstep, rfl⟩ := exists_of_next hnext
    cases skip with
    | zero =>
      cases take with
      | zero => exact .finish rfl
      | succ take => exact .row (by simp only [next, nextIn, hstep]) (ih 0 take rfl)
    | succ skip => exact (ih skip take rfl).of_next_eq (by simp only [next, nextIn, hstep])
  | failure hnext hrest ih =>
    subst hr
    obtain ⟨s', hstep, rfl⟩ := exists_of_next hnext
    cases skip with
    | zero =>
      cases take with
      | zero => exact .finish rfl
      | succ take => exact .failure (by simp only [next, nextIn, hstep]) (ih 0 take rfl)
    | succ skip => exact .failure (by simp only [next, nextIn, hstep]) (ih skip take rfl)

/-- The errors before a page are no rows of it. -/
theorem rowsIn_cut (window : Window) (answers : List (Except Error Row)) :
    rowsIn (window.cut answers) = rowsIn ((answers.drop window.skip).take window.take) := by
  have herrors : ∀ xs : List (Except Error Row), rowsIn (xs.filter (·.toOption.isNone)) = [] := by
    intro xs
    rw [rowsIn, List.filterMap_eq_nil_iff]
    intro answer hanswer
    simpa using (List.mem_filter.1 hanswer).2
  rw [Window.cut, rowsIn_append, herrors, List.nil_append]

/-- Without a failure up to the end of a page, its rows are the page of the rows. -/
theorem rowsIn_cut_of_rows {skip take : Nat} {answers : List (Except Error Row)}
    (h : ∀ answer ∈ answers.take (skip + take), answer.toOption.isSome) :
    rowsIn (Window.cut ⟨skip, take⟩ answers) = ((rowsIn answers).drop skip).take take := by
  rw [rowsIn_cut]
  dsimp only
  induction answers generalizing skip take with
  | nil => simp
  | cons answer answers ih =>
    cases skip with
    | zero =>
      cases take with
      | zero => simp
      | succ take =>
        rw [← Nat.add_assoc, List.take_succ_cons] at h
        obtain ⟨hanswer, hlater⟩ := List.forall_mem_cons.1 h
        cases answer with
        | error e => cases hanswer
        | ok row => simpa using ih hlater
    | succ skip =>
      rw [Nat.succ_add, List.take_succ_cons] at h
      obtain ⟨hanswer, hlater⟩ := List.forall_mem_cons.1 h
      cases answer with
      | error e => cases hanswer
      | ok row => simpa using ih hlater

end Sharding
