import Mathlib.Data.List.Chain
import Sharding.Proofs.Sql.Naming
import Sharding.Proofs.Sql.Slices

/-!
# Physical statements as spliced texts

Rendering a template is splicing: the stretches of text between the tokens stay, and each token
gives way to what a substitution has for it.

* `stretch` is the part of a text between two positions.  It looks at the position of every
  character and cuts nothing, so it has a value for any two positions.
* A `Fragment` is a text to be written, or a cut where a pagination clause was dropped, which takes
  the white space in front with it.  `Template.fragments` lists the fragments of a template and
  `assemble` puts them together.
* `Template.InPlace` says that the tokens come one behind the other, inside of the text and on
  boundaries of characters.

`Template.render_splices` says when a template is rendered, and to what.  The induction over the
tokens is `Template.renderFrom_eq_ok_iff`: the rest of a text can be cut around a token exactly when
the token is in place, and the two parts are then stretches of the whole text.
-/

namespace Sharding.Sql

/-! ## Stretches -/

/-- The characters of a text that start at the position `start` or later and in front of `stop`.
The text itself starts at the position `here`. -/
def stretchFrom (here start stop : Nat) : List Char → List Char
  | [] => []
  | c :: rest =>
    let later := stretchFrom (here + c.utf8Size) start stop rest
    if start ≤ here ∧ here < stop then c :: later else later

/-- The part of a text between two positions. -/
def stretch (text : List Char) (start stop : Nat) : List Char :=
  stretchFrom 0 start stop text

theorem stretchFrom_append (here start stop : Nat) (front back : List Char) :
    stretchFrom here start stop (front ++ back) =
      stretchFrom here start stop front ++
        stretchFrom (here + byteLength front) start stop back := by
  induction front generalizing here with
  | nil => rfl
  | cons c front ih =>
    simp only [List.cons_append, stretchFrom, byteLength_cons]
    rw [ih, Nat.add_assoc]
    split <;> rfl

/-- A text that ends in front of a stretch has no part in it. -/
theorem stretchFrom_of_le_start {here start stop : Nat} {text : List Char}
    (h : here + byteLength text ≤ start) : stretchFrom here start stop text = [] := by
  induction text generalizing here with
  | nil => rfl
  | cons c text ih =>
    rw [byteLength_cons] at h
    have hpos := c.utf8Size_pos
    rw [stretchFrom, if_neg (by omega)]
    exact ih (by omega)

/-- A text that starts behind a stretch has no part in it. -/
theorem stretchFrom_of_stop_le {here start stop : Nat} (h : stop ≤ here) (text : List Char) :
    stretchFrom here start stop text = [] := by
  induction text generalizing here with
  | nil => rfl
  | cons c text ih =>
    rw [stretchFrom, if_neg (by omega)]
    exact ih (by omega)

theorem stretchFrom_of_inside {here start stop : Nat} {text : List Char} (hstart : start ≤ here)
    (hstop : here + byteLength text ≤ stop) : stretchFrom here start stop text = text := by
  induction text generalizing here with
  | nil => rfl
  | cons c text ih =>
    rw [byteLength_cons] at hstop
    have hpos := c.utf8Size_pos
    rw [stretchFrom, if_pos (by omega), ih (by omega) (by omega)]

/-- The stretch between two places where a text can be cut. -/
theorem stretch_append (before piece after : List Char) :
    stretch (before ++ piece ++ after) (byteLength before) (byteLength before + byteLength piece) =
      piece := by
  rw [stretch, stretchFrom_append, stretchFrom_append,
    stretchFrom_of_le_start (by omega), stretchFrom_of_inside (by omega) (by omega),
    stretchFrom_of_stop_le (by simp), List.nil_append, List.append_nil]

theorem stretch_eq {text piece : List Char} {start stop : Nat} (before after : List Char)
    (htext : text = before ++ piece ++ after) (hstart : byteLength before = start)
    (hstop : start + byteLength piece = stop) : stretch text start stop = piece := by
  subst htext hstart hstop
  exact stretch_append before piece after

/-! ## Fragments -/

/-- A part of a physical statement. -/
inductive Fragment where
  /-- A text to be written. -/
  | text (cs : List Char)
  /-- A clause was taken out here, together with the white space in front of it. -/
  | cut

/-- The text `written` so far, continued by a fragment. -/
def Fragment.write (written : List Char) : Fragment → List Char
  | text cs => written ++ cs
  | cut => trimEnd written

/-- The text of fragments that follow one another. -/
def assemble (fragments : List Fragment) : List Char :=
  fragments.foldl Fragment.write []

/-- What a substitution has in the place of a token of a text. -/
def Substitution.fragment (s : Substitution) (text : List Char) : Token → Fragment
  | .table _ _ logical => .text ((s.actual? logical).getD "").toList
  | .derived _ => .text (s.derived.flatMap fun d => d.text.toList)
  | .pagination offset length =>
    match s.page with
    | .keep => .text (stretch text offset (offset + length))
    | .drop => .cut
    | .widen page =>
      match page.stop? with
      | some stop => .text ("LIMIT " ++ natText stop).toList
      | none => .cut

/-- The fragments of a text from a position on: the stretches between the tokens, and what stands
in the place of the tokens. -/
def fragmentsFrom (text : List Char) (s : Substitution) (cursor : Nat) : List Token → List Fragment
  | [] => [.text (stretch text cursor (byteLength text))]
  | token :: tokens =>
    .text (stretch text cursor token.offset) :: s.fragment text token ::
      fragmentsFrom text s token.stop tokens

/-- The fragments of the physical statement of a substitution. -/
def Template.fragments (t : Template) (s : Substitution) : List Fragment :=
  fragmentsFrom t.text.toList s 0 t.tokens

/-! ## Tokens in place -/

/-- A token lies inside of a text and cuts no character. -/
structure Token.Inside (token : Token) (text : List Char) : Prop where
  stop_le : token.stop ≤ byteLength text
  offset_boundary : isBoundary text token.offset = true
  stop_boundary : isBoundary text token.stop = true

/-- A token ends where another one starts, or in front of it. -/
def Token.EndsBefore (token next : Token) : Prop :=
  token.stop ≤ next.offset

instance : Trans Token.EndsBefore Token.EndsBefore Token.EndsBefore where
  trans {a b c} hab hbc := by
    simp only [Token.EndsBefore, Token.stop] at hab hbc ⊢
    omega

/-- The tokens of a template are in place: each starts where the one before it ends or later, and
all of them lie inside of the text and cut no character. -/
structure Template.InPlace (t : Template) : Prop where
  chain : t.tokens.IsChain Token.EndsBefore
  inside : ∀ token ∈ t.tokens, token.Inside t.text.toList

/-- A substitution has an actual table for a token that is the name of one. -/
def Substitution.Names (s : Substitution) (token : Token) : Prop :=
  ∀ logical, token.table? = some logical → ∃ pair ∈ s.tables, sameName pair.1 logical = true

theorem Substitution.actual?_isSome_iff {s : Substitution} {logical : String} :
    (s.actual? logical).isSome = true ↔ ∃ pair ∈ s.tables, sameName pair.1 logical = true := by
  rw [actual?, Option.isSome_map, List.find?_isSome]

/-- A token that is not out of place starts behind the position and lies inside of the text. -/
theorem Token.misplaced_eq_false_iff {token : Token} {text : List Char} {cursor : Nat} :
    token.misplaced text cursor = false ↔ cursor ≤ token.offset ∧ token.Inside text := by
  simp only [Token.misplaced, Bool.or_eq_false_iff, decide_eq_false_iff_not, Nat.not_lt,
    Bool.not_eq_false']
  constructor
  · rintro ⟨⟨⟨hcursor, hstop⟩, hoffset⟩, hend⟩
    exact ⟨hcursor, hstop, hoffset, hend⟩
  · rintro ⟨hcursor, hstop, hoffset, hend⟩
    exact ⟨⟨⟨hcursor, hstop⟩, hoffset⟩, hend⟩

/-! ## Rendering -/

/-- What is written for a token: its fragment, if the substitution has a table for it. -/
theorem Substitution.apply_eq_ok_iff {s : Substitution} {token : Token}
    {text written piece out : List Char}
    (hpiece : stretch text token.offset token.stop = piece) :
    s.apply token written piece = .ok out ↔
      s.Names token ∧ out = (s.fragment text token).write written := by
  cases token with
  | table offset length logical =>
    have hnames : s.Names (.table offset length logical) ↔ (s.actual? logical).isSome = true := by
      rw [actual?_isSome_iff]
      exact ⟨fun h => h logical rfl, fun h other hother => by cases hother; exact h⟩
    rw [hnames]
    cases hactual : s.actual? logical with
    | none => simp [apply, hactual]
    | some actual => simp [apply, fragment, Fragment.write, hactual, eq_comm]
  | derived offset =>
    have hnames : s.Names (.derived offset) := fun _ h => by cases h
    simp [apply, fragment, Fragment.write, hnames, eq_comm]
  | pagination offset length =>
    have hnames : s.Names (.pagination offset length) := fun _ h => by cases h
    have hclause : s.page.apply written piece =
        (s.fragment text (.pagination offset length)).write written := by
      subst hpiece
      cases hpage : s.page with
      | keep => simp only [fragment, hpage, PageClause.apply, Fragment.write]; rfl
      | drop => simp only [fragment, hpage, PageClause.apply, Fragment.write]
      | widen page =>
        cases hstop : page.stop? <;>
          simp only [fragment, hpage, PageClause.apply, Fragment.write, hstop]
    simp [apply, hclause, hnames, eq_comm]

/-- A text is rendered from a position on exactly when all tokens behind the position are in
place and have their tables, and what is written are the fragments. -/
theorem Template.renderFrom_eq_ok_iff {text : String} {s : Substitution}
    {before rest written out : List Char} {tokens : List Token}
    (htext : text.toList = before ++ rest) :
    renderFrom text s (byteLength before) rest written tokens = .ok out ↔
      (∀ token ∈ tokens.head?, byteLength before ≤ token.offset) ∧
      tokens.IsChain Token.EndsBefore ∧
      (∀ token ∈ tokens, token.Inside text.toList) ∧ (∀ token ∈ tokens, s.Names token) ∧
      out = (fragmentsFrom text.toList s (byteLength before) tokens).foldl Fragment.write
        written := by
  induction tokens generalizing before rest written with
  | nil =>
    have hstretch : stretch text.toList (byteLength before) (byteLength text.toList) = rest := by
      apply stretch_eq before [] (by rw [htext, List.append_nil]) rfl
      rw [htext, byteLength_append]
    simp [renderFrom, fragmentsFrom, Fragment.write, hstretch, eq_comm]
  | cons token tokens ih =>
    have hplace := misplaced_eq token before rest
    rw [← htext] at hplace
    rw [renderFrom]
    rcases hcut : cutToken (byteLength before) rest token with _ | ⟨gap, piece, after⟩
    · -- A token that the text cannot be cut around is out of place.
      rw [hcut] at hplace
      constructor
      · intro h
        cases h
      · rintro ⟨hhead, -, hinside, -, -⟩
        have hfalse := Token.misplaced_eq_false_iff.2
          ⟨hhead token rfl, hinside token List.mem_cons_self⟩
        rw [hfalse] at hplace
        cases hplace
    · obtain ⟨rfl, hoffset, hlength⟩ := cutToken_eq_some hcut
      rw [hcut] at hplace
      obtain ⟨hcursor, hinside⟩ := Token.misplaced_eq_false_iff.1 hplace
      have hrest : text.toList = before ++ gap ++ piece ++ after := by
        simpa only [List.append_assoc] using htext
      have hgap : stretch text.toList (byteLength before) token.offset = gap := by
        apply stretch_eq before (piece ++ after) _ rfl hoffset
        rw [hrest, List.append_assoc]
      have hpiece : stretch text.toList token.offset token.stop = piece := by
        apply stretch_eq (before ++ gap) after hrest
        · rw [byteLength_append, hoffset]
        · rw [hlength, Token.stop]
      have hstop : byteLength (before ++ gap ++ piece) = token.stop := by
        rw [byteLength_append, byteLength_append, hoffset, hlength, Token.stop]
      have hstep : ∀ w, renderFrom text s token.stop after w tokens = .ok out ↔ _ :=
        fun w => hstop ▸ @ih _ _ w hrest
      rw [fragmentsFrom, hgap, List.foldl_cons, List.foldl_cons]
      simp only [Fragment.write, List.isChain_cons, List.head?_cons, Option.mem_def,
        Option.some.injEq, forall_eq', List.forall_mem_cons]
      constructor
      · intro h
        obtain ⟨next, hnext, h⟩ := exists_of_bind_eq_ok h
        obtain ⟨hnames, rfl⟩ := (Substitution.apply_eq_ok_iff hpiece).1 hnext
        obtain ⟨hhead, hchain, hall, htables, hout⟩ := (hstep _).1 h
        exact ⟨hcursor, ⟨hhead, hchain⟩, ⟨hinside, hall⟩, ⟨hnames, htables⟩, hout⟩
      · rintro ⟨-, ⟨hhead, hchain⟩, ⟨-, hall⟩, ⟨hnames, htables⟩, hout⟩
        rw [(Substitution.apply_eq_ok_iff hpiece).2 ⟨hnames, rfl⟩]
        exact (hstep _).2 ⟨hhead, hchain, hall, htables, hout⟩

theorem Template.render_eq_ok {t : Template} {s : Substitution} {sql : String} :
    t.render s = .ok sql ↔ renderFrom t.text s 0 t.text.toList [] t.tokens = .ok sql.toList := by
  constructor
  · intro h
    obtain ⟨out, hout, hsql⟩ := exists_of_bind_eq_ok h
    cases hsql
    rw [hout, String.toList_ofList]
  · intro h
    rw [render, h]
    show Except.ok (String.ofList sql.toList) = _
    rw [String.ofList_toList]

theorem Template.renderFrom_start_iff {t : Template} {s : Substitution} {out : List Char} :
    renderFrom t.text s 0 t.text.toList [] t.tokens = .ok out ↔
      t.InPlace ∧ (∀ token ∈ t.tokens, s.Names token) ∧ out = assemble (t.fragments s) := by
  have hfrom : renderFrom t.text s (byteLength []) t.text.toList [] t.tokens = .ok out ↔ _ :=
    renderFrom_eq_ok_iff (List.nil_append t.text.toList).symm
  rw [byteLength_nil] at hfrom
  rw [hfrom]
  constructor
  · rintro ⟨-, hchain, hinside, hnames, hout⟩
    exact ⟨⟨hchain, hinside⟩, hnames, hout⟩
  · rintro ⟨⟨hchain, hinside⟩, hnames, hout⟩
    exact ⟨fun _ _ => Nat.zero_le _, hchain, hinside, hnames, hout⟩

/-- A rendering fails for a token that is out of place, or for a name without an actual table. -/
theorem Template.renderFrom_error {text : String} {s : Substitution} {cursor : Nat}
    {rest written : List Char} {tokens : List Token} {cause : RoutingCause}
    (h : renderFrom text s cursor rest written tokens = .error cause) :
    (∃ token ∈ tokens, cause = .malformedTemplate token text) ∨
      ∃ token ∈ tokens, ¬s.Names token := by
  induction tokens generalizing cursor rest written with
  | nil => cases h
  | cons token tokens ih =>
    rw [renderFrom] at h
    split at h
    next =>
      cases h
      exact .inl ⟨token, List.mem_cons_self, rfl⟩
    next gap piece after hcut =>
      by_cases hnames : s.Names token
      · have hrest : ∃ next, renderFrom text s token.stop after next tokens = .error cause := by
          cases happly : s.apply token (written ++ gap) piece with
          | ok next =>
            rw [happly] at h
            exact ⟨next, h⟩
          | error other =>
            cases token with
            | table offset length logical =>
              obtain ⟨actual, hactual⟩ := Option.isSome_iff_exists.1
                (Substitution.actual?_isSome_iff.2 (hnames logical rfl))
              simp [Substitution.apply, hactual] at happly
            | derived offset => cases happly
            | pagination offset length => cases happly
        obtain ⟨next, hnext⟩ := hrest
        rcases ih hnext with ⟨other, hmem, hcause⟩ | ⟨other, hmem, hother⟩
        · exact .inl ⟨other, List.mem_cons_of_mem _ hmem, hcause⟩
        · exact .inr ⟨other, List.mem_cons_of_mem _ hmem, hother⟩
      · exact .inr ⟨token, List.mem_cons_self, hnames⟩

theorem Template.render_error {t : Template} {s : Substitution} {cause : RoutingCause}
    (h : t.render s = .error cause) :
    (∃ token ∈ t.tokens, cause = .malformedTemplate token t.text) ∨
      ∃ token ∈ t.tokens, ¬s.Names token := by
  rw [render] at h
  cases hout : renderFrom t.text s 0 t.text.toList [] t.tokens with
  | ok out =>
    rw [hout] at h
    cases h
  | error other =>
    rw [hout] at h
    cases h
    exact renderFrom_error hout

/-- A template is rendered exactly when its tokens are in place and each name of a table has a pair
in the substitution.  The statement is the text of the template with every token replaced. -/
theorem Template.render_splices {t : Template} {s : Substitution} {sql : String} :
    t.render s = .ok sql ↔
      t.InPlace ∧ (∀ token ∈ t.tokens, s.Names token) ∧
        sql.toList = assemble (t.fragments s) := by
  rw [render_eq_ok, renderFrom_start_iff]

end Sharding.Sql
