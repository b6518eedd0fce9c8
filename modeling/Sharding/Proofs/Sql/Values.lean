import Sharding.Proofs.Datum.Literal
import Sharding.Proofs.Sql.Literals

/-!
# Reading rows of values

A list of rows is read as a database would read it: the text is taken apart into literals and
characters outside of them, commas and parentheses outside of literals make the rows and values, and
white space around a value does not count (`readValues?`).

* Segments are read as they were written when they are `Apart`: a literal that stood right behind
  another one would look like a quote inside of it (`readSegments_of_apart`).
* `IsValue` says what the segments of a value are like.  Rows of values are found again between the
  separators (`readRows_rows`).
-/

namespace Sharding

namespace Sql

/-! ## Segments that stand apart -/

/-- Segments that are told apart in the text: no quote stands outside of literals, and no literal
right behind another one. -/
def Apart : List Segment → Prop
  | [] => True
  | .outside c :: rest => c ≠ '\'' ∧ Apart rest
  | .literal _ :: rest => (∀ content later, rest ≠ .literal content :: later) ∧ Apart rest

/-- A character outside of literals keeps what stands in front of it and behind it apart. -/
theorem Apart.append_outside {front rest : List Segment} {c : Char} (h : Apart front)
    (hc : c ≠ '\'') (hrest : Apart rest) : Apart (front ++ .outside c :: rest) := by
  induction front with
  | nil => exact ⟨hc, hrest⟩
  | cons s front ih =>
    cases s with
    | outside c' => exact ⟨h.1, ih h.2⟩
    | literal content =>
      refine ⟨fun content' later heq => ?_, ih h.2⟩
      cases front with
      | nil => cases heq
      | cons s front => exact h.1 content' front (by rw [(List.cons.inj heq).1])

/-- The content of a literal is read up to the quote that ends it. -/
theorem readSegments_literal (content : List Char) {rest : List Char}
    (hrest : ∀ later, rest ≠ '\'' :: later) (before : List Char) :
    readSegments (some before) (doubleQuotes content ++ '\'' :: rest) =
      (readSegments none rest).map (.literal (before ++ content) :: ·) := by
  induction content generalizing before with
  | nil =>
    rw [List.append_nil]
    cases rest with
    | nil => rfl
    | cons c rest =>
      have hc : c ≠ '\'' := fun hc => hrest rest (by rw [hc])
      exact readSegments.eq_6 _ _ fun later heq => hc (List.cons.inj heq).1
  | cons c content ih =>
    by_cases hc : c = '\''
    · subst hc
      show readSegments (some (before ++ ['\''])) (doubleQuotes content ++ '\'' :: rest) = _
      rw [ih, List.append_assoc]
      rfl
    · have hdouble : doubleQuotes (c :: content) = c :: doubleQuotes content := by
        simp [doubleQuotes, hc]
      have hstep : readSegments (some before) (c :: (doubleQuotes content ++ '\'' :: rest)) =
          readSegments (some (before ++ [c])) (doubleQuotes content ++ '\'' :: rest) :=
        readSegments.eq_7 _ _ _ (fun _ heq _ => hc heq) hc
      rw [hdouble, List.cons_append, hstep, ih, List.append_assoc]
      rfl

/-- Segments that stand apart are read as they were written. -/
theorem readSegments_of_apart {segments : List Segment} (h : Apart segments) :
    readSegments? (segments.flatMap Segment.text) = some segments := by
  induction segments with
  | nil => rfl
  | cons s rest ih =>
    cases s with
    | outside c =>
      have hstep : readSegments none (c :: rest.flatMap Segment.text) =
          (readSegments none (rest.flatMap Segment.text)).map (.outside c :: ·) :=
        readSegments.eq_4 _ _ h.1
      show readSegments none (c :: rest.flatMap Segment.text) = _
      rw [hstep]
      exact congrArg (Option.map _) (ih h.2)
    | literal content =>
      have hrest : ∀ later, rest.flatMap Segment.text ≠ '\'' :: later := by
        intro later heq
        cases rest with
        | nil => cases heq
        | cons s rest =>
          cases s with
          | outside c => exact h.2.1 (List.cons.inj heq).1
          | literal content' => exact h.1 content' rest rfl
      have hread := readSegments_literal content hrest []
      show readSegments (some [])
        ((doubleQuotes content ++ ['\'']) ++ rest.flatMap Segment.text) = _
      rw [List.append_assoc]
      refine hread.trans ?_
      exact congrArg (Option.map _) (ih h.2)

/-! ## Rows of values -/

/-- White space outside of literals. -/
def Segment.isSpace : Segment → Bool
  | outside c => isBlank c
  | literal _ => false

/-- A value without the white space around it. -/
def trimmed (value : List Segment) : List Segment :=
  ((value.dropWhile Segment.isSpace).reverse.dropWhile Segment.isSpace).reverse

/-- Where the reader of a list of rows stands. -/
inductive Place where
  /-- In front of a row, which may be missing when it is the first. -/
  | front (first : Bool)
  /-- Inside a row, behind some values and some segments of the next one. -/
  | inside (values : List (List Segment)) (value : List Segment)
  /-- Behind a row. -/
  | behind

/-- The row of some values and a last one.  A row with nothing in it has no values. -/
def rowOf (values : List (List Segment)) (last : List Segment) : List (List Segment) :=
  if values = [] ∧ last = [] then [] else values ++ [last]

/-- The rows of values in a text: commas and parentheses outside of literals make them. -/
def readRows : Place → List Segment → Option (List (List (List Segment)))
  | .front first, [] => if first then some [] else none
  | .inside _ _, [] => none
  | .behind, [] => some []
  | .front first, .outside c :: rest =>
    if c = '(' then readRows (.inside [] []) rest
    else if isBlank c then readRows (.front first) rest
    else none
  | .inside values value, .outside c :: rest =>
    if c = ',' then readRows (.inside (values ++ [trimmed value]) []) rest
    else if c = ')' then (readRows .behind rest).map (rowOf values (trimmed value) :: ·)
    else if c = '(' then none
    else readRows (.inside values (value ++ [.outside c])) rest
  | .behind, .outside c :: rest =>
    if c = ',' then readRows (.front false) rest
    else if isBlank c then readRows .behind rest
    else none
  | .inside values value, .literal content :: rest =>
    readRows (.inside values (value ++ [.literal content])) rest
  | _, .literal _ :: _ => none

/-- The rows of value texts behind the word `VALUES` of an insert. -/
def readValues? (text : String) : Option (List (List String)) := do
  let rows ← readRows (.front true) (← readSegments? text.toList)
  return rows.map fun row => row.map fun value => String.ofList (value.flatMap Segment.text)

/-- The content of a text that is one literal. -/
def unquote? (text : String) : Option String :=
  match readSegments? text.toList with
  | some [.literal content] => some (String.ofList content)
  | _ => none

/-! ### Reading what was written -/

/-- A segment inside a value: it separates nothing and is no white space. -/
def Segment.Inner : Segment → Prop
  | outside c => c ≠ ',' ∧ c ≠ '(' ∧ c ≠ ')' ∧ isBlank c = false
  | literal _ => True

/-- The segments of one value. -/
structure IsValue (value : List Segment) : Prop where
  ne_nil : value ≠ []
  inner : ∀ s ∈ value, s.Inner
  apart : Apart value

/-- The comma between values, and between rows. -/
def separator : List Segment :=
  [.outside ',', .outside ' ']

/-- The segments of a row. -/
def rowSegments (row : List (List Segment)) : List Segment :=
  .outside '(' :: (separator.intercalate row ++ [.outside ')'])

/-- The segments of a list of rows. -/
def rowsSegments (rows : List (List (List Segment))) : List Segment :=
  separator.intercalate (rows.map rowSegments)

theorem Segment.Inner.isSpace_eq {s : Segment} (h : s.Inner) : s.isSpace = false := by
  cases s with
  | outside c => exact h.2.2.2
  | literal content => rfl

/-- White space in front of a value is dropped, and the value stays. -/
theorem trimmed_append {blank value : List Segment} (hblank : ∀ s ∈ blank, s.isSpace = true)
    (h : ∀ s ∈ value, s.Inner) : trimmed (blank ++ value) = value := by
  have hkeep : ∀ segments : List Segment, (∀ s ∈ segments, s.Inner) →
      segments.dropWhile Segment.isSpace = segments := by
    intro segments hinner
    cases segments with
    | nil => rfl
    | cons s rest =>
      exact List.dropWhile_cons_of_neg (by rw [(hinner s List.mem_cons_self).isSpace_eq]; decide)
  rw [trimmed, List.dropWhile_append_of_pos hblank, hkeep value h,
    hkeep _ fun s hs => h s (List.mem_reverse.1 hs), List.reverse_reverse]

/-- The segments of a value are put together. -/
theorem readRows_inner {segments : List Segment} (h : ∀ s ∈ segments, s.Inner)
    (values : List (List Segment)) (value rest : List Segment) :
    readRows (.inside values value) (segments ++ rest) =
      readRows (.inside values (value ++ segments)) rest := by
  induction segments generalizing value with
  | nil => rw [List.append_nil, List.nil_append]
  | cons s segments ih =>
    obtain ⟨hs, hsegments⟩ := List.forall_mem_cons.1 h
    have hstep : readRows (.inside values value) (s :: (segments ++ rest)) =
        readRows (.inside values (value ++ [s])) (segments ++ rest) := by
      cases s with
      | outside c => rw [readRows, if_neg hs.1, if_neg hs.2.2.1, if_neg hs.2.1]
      | literal content => rfl
    rw [List.cons_append, hstep, ih hsegments, List.append_assoc]
    rfl

/-- The values of a row, behind some others and maybe white space. -/
theorem readRows_values {value : List Segment} {row : List (List Segment)}
    (h : ∀ v ∈ value :: row, IsValue v) (values : List (List Segment)) {blank : List Segment}
    (hblank : ∀ s ∈ blank, s.isSpace = true) (rest : List Segment) :
    readRows (.inside values blank)
        (separator.intercalate (value :: row) ++ .outside ')' :: rest) =
      (readRows .behind rest).map ((values ++ value :: row) :: ·) := by
  induction row generalizing value values blank with
  | nil =>
    have hvalue := h value List.mem_cons_self
    have hrow : rowOf values value = values ++ [value] := if_neg fun hnil => hvalue.ne_nil hnil.2
    rw [List.intercalate_singleton, readRows_inner hvalue.inner, readRows, if_neg (by decide),
      if_pos rfl, trimmed_append hblank hvalue.inner, hrow]
  | cons next row ih =>
    obtain ⟨hvalue, hrow⟩ := List.forall_mem_cons.1 h
    have hspace : ∀ s ∈ [Segment.outside ' '], s.isSpace = true := by decide
    rw [List.intercalate_cons_cons, List.append_assoc, List.append_assoc,
      readRows_inner hvalue.inner]
    show readRows (.inside values (blank ++ value)) (.outside ',' :: .outside ' ' :: _) = _
    rw [readRows, if_pos rfl, trimmed_append hblank hvalue.inner]
    show readRows (.inside (values ++ [value]) [.outside ' '])
      (separator.intercalate (next :: row) ++ .outside ')' :: rest) = _
    rw [ih hrow _ hspace, List.append_assoc]
    rfl

/-- A row is read up to its closing parenthesis. -/
theorem readRows_row {row : List (List Segment)} (h : ∀ value ∈ row, IsValue value)
    (first : Bool) (rest : List Segment) :
    readRows (.front first) (rowSegments row ++ rest) =
      (readRows .behind rest).map (row :: ·) := by
  rw [rowSegments, List.cons_append, List.append_assoc, readRows, if_pos rfl]
  cases row with
  | nil => rfl
  | cons value row => exact readRows_values h [] (fun _ hs => absurd hs List.not_mem_nil) rest

/-- Rows of values are found again between the separators. -/
theorem readRows_rows {rows : List (List (List Segment))}
    (h : ∀ row ∈ rows, ∀ value ∈ row, IsValue value) :
    readRows (.front true) (rowsSegments rows) = some rows := by
  -- behind the first row a row has to follow each comma
  have hrows : ∀ (row : List (List Segment)) (rows : List (List (List Segment))),
      (∀ r ∈ row :: rows, ∀ value ∈ r, IsValue value) → ∀ first,
      readRows (.front first) (rowsSegments (row :: rows)) = some (row :: rows) := by
    intro row rows
    induction rows generalizing row with
    | nil =>
      intro h first
      have hread := readRows_row (h row List.mem_cons_self) first []
      have hone : rowsSegments [row] = rowSegments row := List.intercalate_singleton
      rw [List.append_nil] at hread
      rw [hone, hread]
      rfl
    | cons next rows ih =>
      intro h first
      obtain ⟨hrow, hrest⟩ := List.forall_mem_cons.1 h
      have hsplit : rowsSegments (row :: next :: rows) =
          rowSegments row ++ (separator ++ rowsSegments (next :: rows)) := by
        rw [← List.append_assoc]
        exact List.intercalate_cons_cons
      have hseparator : readRows .behind (separator ++ rowsSegments (next :: rows)) =
          readRows (.front false) (rowsSegments (next :: rows)) := rfl
      rw [hsplit, readRows_row hrow, hseparator, ih next hrest false]
      rfl
  cases rows with
  | nil => rfl
  | cons row rows => exact hrows row rows h true

/-! ### The text of rows -/

/-- The values of a row stand apart. -/
theorem apart_values {value : List Segment} {row : List (List Segment)}
    (h : ∀ v ∈ value :: row, IsValue v) {rest : List Segment} (hrest : Apart rest) :
    Apart (separator.intercalate (value :: row) ++ .outside ')' :: rest) := by
  induction row generalizing value with
  | nil =>
    rw [List.intercalate_singleton]
    exact (h value List.mem_cons_self).apart.append_outside (by decide) hrest
  | cons next row ih =>
    obtain ⟨hvalue, hrow⟩ := List.forall_mem_cons.1 h
    rw [List.intercalate_cons_cons, List.append_assoc, List.append_assoc]
    exact hvalue.apart.append_outside (by decide) ⟨by decide, ih hrow⟩

theorem apart_row {row : List (List Segment)} (h : ∀ value ∈ row, IsValue value)
    {rest : List Segment} (hrest : Apart rest) : Apart (rowSegments row ++ rest) := by
  rw [rowSegments, List.cons_append, List.append_assoc]
  refine ⟨by decide, ?_⟩
  cases row with
  | nil => exact ⟨by decide, hrest⟩
  | cons value row => exact apart_values h hrest

theorem apart_rows {rows : List (List (List Segment))}
    (h : ∀ row ∈ rows, ∀ value ∈ row, IsValue value) : Apart (rowsSegments rows) := by
  induction rows with
  | nil => trivial
  | cons row rows ih =>
    obtain ⟨hrow, hrows⟩ := List.forall_mem_cons.1 h
    cases rows with
    | nil =>
      have hone : rowsSegments [row] = rowSegments row ++ [] :=
        List.intercalate_singleton.trans (List.append_nil _).symm
      rw [hone]
      exact apart_row hrow trivial
    | cons next rows =>
      have hsplit : rowsSegments (row :: next :: rows) =
          rowSegments row ++ (separator ++ rowsSegments (next :: rows)) := by
        rw [← List.append_assoc]
        exact List.intercalate_cons_cons
      rw [hsplit]
      exact apart_row hrow ⟨by decide, by decide, ih hrows⟩

theorem flatMap_text_outside (cs : List Char) :
    (cs.map Segment.outside).flatMap Segment.text = cs := by
  rw [List.flatMap_map]
  exact List.flatMap_singleton' cs

theorem flatMap_text_intercalate (parts : List (List Segment)) :
    (separator.intercalate parts).flatMap Segment.text =
      [',', ' '].intercalate (parts.map (·.flatMap Segment.text)) := by
  induction parts with
  | nil => rfl
  | cons part parts ih =>
    cases parts with
    | nil =>
      rw [List.intercalate_singleton]
      exact List.intercalate_singleton.symm
    | cons next parts =>
      rw [List.intercalate_cons_cons, List.flatMap_append, List.flatMap_append, ih]
      exact List.intercalate_cons_cons.symm

/-! ### Values -/

theorem inner_of_isBare {c : Char} (h : isBare c = true) : (Segment.outside c).Inner := by
  have hne : ∀ c' : Char, isBare c' = false → c ≠ c' := by
    rintro c' hc' rfl
    rw [h] at hc'
    cases hc'
  refine ⟨hne _ (by decide), hne _ (by decide), hne _ (by decide), ?_⟩
  rw [isBare, Bool.or_eq_true, Bool.or_eq_true, beq_iff_eq, beq_iff_eq] at h
  rcases h with (h | rfl) | rfl
  · exact isBlank_of_isWordChar (by rw [isWordChar, h]; rfl)
  · decide
  · decide

theorem apart_outside {cs : List Char} (h : Bare cs) : Apart (cs.map .outside) := by
  induction cs with
  | nil => trivial
  | cons c cs ih =>
    obtain ⟨hc, hcs⟩ := List.forall_mem_cons.1 h
    exact ⟨fun hquote => absurd (hquote ▸ hc) (by decide), ih hcs⟩

/-- A literal without quotes is a value. -/
theorem isValue_bare {cs : List Char} (hne : cs ≠ []) (h : Bare cs) :
    IsValue (cs.map .outside) where
  ne_nil := by simpa using hne
  inner s hs := by
    obtain ⟨c, hc, rfl⟩ := List.mem_map.1 hs
    exact inner_of_isBare (h c hc)
  apart := apart_outside h

theorem isValue_literal (content : List Char) : IsValue [.literal content] where
  ne_nil := List.cons_ne_nil _ _
  inner s hs := by
    rw [List.mem_singleton.1 hs]
    trivial
  apart := ⟨fun _ _ => nofun, trivial⟩

end Sql

end Sharding
