import Sharding.Datum.Basic
import Sharding.Proofs.Sql.Scanning

/-!
# String literals in physical statements

The search for names of tables does not know literals: a name inside of quotes is marked and
replaced like any other.  This file says what becomes of literals when a scanned template is
rendered with its pagination clause kept and no derived columns.

* A `Segment` of a text is a character outside of literals or a literal, in which a quote is
  written twice.  `readSegments?` reads a text as segments, unless a literal is left open.
* `Carries` relates a text, from a position on, with what is written for it: characters stay, unless
  they stand under a name, and actual tables are put in where names start.  Rendering is of this
  kind (`carries_of_renderFrom`).
* A literal without a marked name is carried over as it stands (`Carries.untouched`).

`Template.literals_kept_without_names` collects this for all literals of a text.  A literal that
shares characters with a marked name holds the name as a whole word, if names have no quotes
(`exists_standsAt_of_touches`).
-/

namespace Sharding.Sql

/-! ## Reading literals -/

/-- A part of a text with literals. -/
inductive Segment where
  /-- A character outside of literals. -/
  | outside (c : Char)
  /-- A literal. -/
  | literal (content : List Char)

/-- How a segment is written. -/
def Segment.text : Segment → List Char
  | outside c => [c]
  | literal content => '\'' :: doubleQuotes content ++ ['\'']

/-- Reads a text, or the rest of a text behind the start of a literal, whose content so far is
given.  Inside of a literal a quote that is written twice is one quote. -/
def readSegments : Option (List Char) → List Char → Option (List Segment)
  | none, [] => some []
  | some _, [] => none
  | none, '\'' :: rest => readSegments (some []) rest
  | none, c :: rest => (readSegments none rest).map (.outside c :: ·)
  | some content, '\'' :: '\'' :: rest => readSegments (some (content ++ ['\''])) rest
  | some content, '\'' :: rest => (readSegments none rest).map (.literal content :: ·)
  | some content, c :: rest => readSegments (some (content ++ [c])) rest

/-- The segments of a text, if no literal is left open. -/
def readSegments? (text : List Char) : Option (List Segment) :=
  readSegments none text

/-- How the text in front of the rest is written. -/
def openText : Option (List Char) → List Char
  | none => []
  | some content => '\'' :: doubleQuotes content

theorem doubleQuotes_append (front back : List Char) :
    doubleQuotes (front ++ back) = doubleQuotes front ++ doubleQuotes back :=
  List.flatMap_append

/-- The segments that are read make up the text. -/
theorem flatMap_text_of_readSegments {content? : Option (List Char)} {cs : List Char}
    {segments : List Segment} (h : readSegments content? cs = some segments) :
    segments.flatMap Segment.text = openText content? ++ cs := by
  fun_induction readSegments content? cs generalizing segments with
  | case1 =>
    cases h
    rfl
  | case2 => cases h
  | case3 rest ih => exact ih h
  | case4 c rest hother ih =>
    obtain ⟨later, hlater, rfl⟩ := Option.map_eq_some_iff.1 h
    rw [List.flatMap_cons, ih hlater]
    rfl
  | case5 content rest ih =>
    rw [ih h, openText, doubleQuotes_append]
    simp [openText, doubleQuotes]
  | case6 content rest hother ih =>
    obtain ⟨later, hlater, rfl⟩ := Option.map_eq_some_iff.1 h
    rw [List.flatMap_cons, ih hlater]
    simp [openText, Segment.text]
  | case7 content c rest hdouble hother ih =>
    have hc : c ≠ '\'' := hother
    rw [ih h, openText, doubleQuotes_append]
    simp [openText, doubleQuotes, hc]

/-- The literals among segments, with the positions where they start. -/
def literalsFrom (start : Nat) : List Segment → List (Nat × List Char)
  | [] => []
  | .outside c :: segments => literalsFrom (start + c.utf8Size) segments
  | .literal content :: segments =>
    let literal := Segment.text (.literal content)
    (start, literal) :: literalsFrom (start + byteLength literal) segments

/-- The texts stand in another one, each behind the one before it. -/
def InOrder : List (List Char) → List Char → Prop
  | [], _ => True
  | part :: parts, text => ∃ front back, text = front ++ part ++ back ∧ InOrder parts back

theorem InOrder.prepend {parts : List (List Char)} {text : List Char} (h : InOrder parts text)
    (front : List Char) : InOrder parts (front ++ text) := by
  cases parts with
  | nil => trivial
  | cons part parts =>
    obtain ⟨gap, back, rfl, h⟩ := h
    exact ⟨front ++ gap, back, by simp only [List.append_assoc], h⟩

/-! ## What rendering carries over -/

/-- The name of a table is marked at a position. -/
def Template.StartsName (t : Template) (n : Nat) : Prop :=
  ∃ token ∈ t.tokens, token.table?.isSome = true ∧ token.offset = n

/-- The character at a position is part of a marked name. -/
def Template.CoversName (t : Template) (n : Nat) : Prop :=
  ∃ token ∈ t.tokens, token.table?.isSome = true ∧ token.offset ≤ n ∧ n < token.stop

/-- The stretch between two positions shares characters with a marked name. -/
def Template.touches (t : Template) (start stop : Nat) : Bool :=
  t.tokens.any fun token => token.table?.isSome && token.offset < stop && start < token.stop

theorem Template.touches_iff {t : Template} {start stop : Nat} :
    t.touches start stop = true ↔
      ∃ token ∈ t.tokens, token.table?.isSome = true ∧ token.offset < stop ∧
        start < token.stop := by
  simp [touches, and_assoc]

/-- The last text is what the first one, from the position `n` on, has become. -/
inductive Carries (t : Template) : Nat → List Char → List Char → Prop
  | done {n : Nat} : Carries t n [] []
  /-- A character stays. -/
  | keep {n : Nat} {c : Char} {rest out : List Char} :
      Carries t (n + c.utf8Size) rest out → Carries t n (c :: rest) (c :: out)
  /-- An actual table is put in where a name starts. -/
  | put {n : Nat} {rest out : List Char} (actual : List Char) :
      t.StartsName n → Carries t n rest out → Carries t n rest (actual ++ out)
  /-- A character of a name goes away. -/
  | drop {n : Nat} {c : Char} {rest out : List Char} :
      t.CoversName n → Carries t (n + c.utf8Size) rest out → Carries t n (c :: rest) out

section Carries

variable {t : Template} {n : Nat} {rest out : List Char}

theorem Carries.keepAll {front : List Char} (h : Carries t (n + byteLength front) rest out) :
    Carries t n (front ++ rest) (front ++ out) := by
  induction front generalizing n with
  | nil => exact h
  | cons c front ih =>
    rw [byteLength_cons, ← Nat.add_assoc] at h
    exact .keep (ih h)

theorem Carries.dropAll {piece : List Char}
    (hname : ∀ m, n ≤ m → m < n + byteLength piece → t.CoversName m)
    (h : Carries t (n + byteLength piece) rest out) : Carries t n (piece ++ rest) out := by
  induction piece generalizing n with
  | nil => exact h
  | cons c piece ih =>
    have hpos := c.utf8Size_pos
    rw [byteLength_cons] at hname h
    rw [← Nat.add_assoc] at h
    refine .drop (hname n (Nat.le_refl n) (by omega)) (ih ?_ h)
    intro m hle hlt
    exact hname m (by omega) (by omega)

theorem Substitution.exists_of_apply {s : Substitution} {token : Token} {logical : String}
    {written piece : List Char} (htable : token.table? = some logical)
    (h : s.apply token written piece = .ok out) : ∃ actual, out = written ++ actual := by
  cases token with
  | table offset length logical =>
    unfold apply at h
    dsimp only at h
    split at h
    next actual _ =>
      cases h
      exact ⟨actual.toList, rfl⟩
    next => cases h
  | derived offset => cases htable
  | pagination offset length => cases htable

/-- A token that is no name stays as it is, if derived columns are none and the clause is kept. -/
theorem Substitution.apply_keeps {s : Substitution} {token : Token} {written piece : List Char}
    (hderived : s.derived = []) (hpage : s.page = .keep) (htable : token.table? = none)
    (hlength : byteLength piece = token.length) (h : s.apply token written piece = .ok out) :
    out = written ++ piece := by
  cases token with
  | table offset length logical => cases htable
  | derived offset =>
    have hpiece : piece = [] := by
      by_contra hne
      exact absurd hlength (Nat.ne_of_gt (byteLength_pos hne))
    cases h
    rw [hpiece, hderived]
    rfl
  | pagination offset length =>
    cases h
    rw [hpage]
    rfl

/-- Rendering carries a text over, if derived columns are none and the clause is kept. -/
theorem carries_of_renderFrom {text : String} {s : Substitution} {cursor : Nat}
    {written : List Char} {tokens : List Token} (hderived : s.derived = [])
    (hpage : s.page = .keep) (htokens : ∀ token ∈ tokens, token ∈ t.tokens)
    (h : Template.renderFrom text s cursor rest written tokens = .ok out) :
    ∃ later, out = written ++ later ∧ Carries t cursor rest later := by
  induction tokens generalizing cursor rest written with
  | nil =>
    cases h
    have hkept : Carries t cursor (rest ++ []) (rest ++ []) := .keepAll .done
    rw [List.append_nil] at hkept
    exact ⟨rest, rfl, hkept⟩
  | cons token tokens ih =>
    rw [Template.renderFrom] at h
    split at h
    next => cases h
    next gap piece after hcut =>
      obtain ⟨rfl, hoffset, hlength⟩ := cutToken_eq_some hcut
      obtain ⟨next, hnext, h⟩ := exists_of_bind_eq_ok h
      obtain ⟨later, rfl, hlater⟩ :=
        ih (fun token htoken => htokens token (List.mem_cons_of_mem _ htoken)) h
      have hmem := htokens token List.mem_cons_self
      have hstop : token.stop = token.offset + byteLength piece := by
        rw [hlength, Token.stop]
      rw [hstop] at hlater
      rw [← hoffset] at hlater
      cases htable : token.table? with
      | some logical =>
        have hname : token.table?.isSome = true := by rw [htable]; rfl
        obtain ⟨actual, rfl⟩ := Substitution.exists_of_apply htable hnext
        refine ⟨gap ++ (actual ++ later), by simp only [List.append_assoc], ?_⟩
        rw [List.append_assoc]
        refine .keepAll (.put actual ⟨token, hmem, hname, hoffset.symm⟩ (.dropAll ?_ hlater))
        intro m hle hlt
        exact ⟨token, hmem, hname, by omega, by omega⟩
      | none =>
        obtain rfl := Substitution.apply_keeps hderived hpage htable hlength hnext
        refine ⟨gap ++ (piece ++ later), by simp only [List.append_assoc], ?_⟩
        rw [List.append_assoc]
        exact .keepAll (.keepAll hlater)

theorem Carries.split {front : List Char} (h : Carries t n (front ++ rest) out) :
    ∃ before after, out = before ++ after ∧ Carries t (n + byteLength front) rest after := by
  generalize hcs : front ++ rest = cs at h
  induction h generalizing front with
  | done =>
    obtain ⟨rfl, rfl⟩ := List.append_eq_nil_iff.1 hcs
    exact ⟨[], [], rfl, .done⟩
  | @keep n c cs out h ih =>
    cases front with
    | nil =>
      obtain rfl : rest = c :: cs := hcs
      exact ⟨[], c :: out, rfl, .keep h⟩
    | cons d front =>
      obtain ⟨rfl, rfl⟩ := List.cons.inj hcs
      obtain ⟨before, after, rfl, hafter⟩ := ih rfl
      rw [Nat.add_assoc, ← byteLength_cons] at hafter
      exact ⟨d :: before, after, rfl, hafter⟩
  | put actual _ _ ih =>
    obtain ⟨before, after, rfl, hafter⟩ := ih hcs
    exact ⟨actual ++ before, after, (List.append_assoc _ _ _).symm, hafter⟩
  | @drop n c cs out hname h ih =>
    cases front with
    | nil =>
      obtain rfl : rest = c :: cs := hcs
      exact ⟨[], out, rfl, .drop hname h⟩
    | cons d front =>
      obtain ⟨rfl, rfl⟩ := List.cons.inj hcs
      obtain ⟨before, after, rfl, hafter⟩ := ih rfl
      rw [Nat.add_assoc, ← byteLength_cons] at hafter
      exact ⟨before, after, rfl, hafter⟩

/-- Where no name starts and no name covers a character, the text stays. -/
theorem Carries.free {part : List Char} (h : Carries t n (part ++ rest) out)
    (hstarts : ∀ m, n ≤ m → m < n + byteLength part → ¬t.StartsName m)
    (hcovers : ∀ m, n ≤ m → m < n + byteLength part → ¬t.CoversName m) :
    ∃ after, out = part ++ after ∧ Carries t (n + byteLength part) rest after := by
  induction part generalizing n out with
  | nil => exact ⟨out, rfl, h⟩
  | cons c part ih =>
    have hpos := c.utf8Size_pos
    rw [byteLength_cons] at hstarts hcovers
    cases h with
    | keep h =>
      obtain ⟨after, rfl, hafter⟩ := ih h (fun m hle hlt => hstarts m (by omega) (by omega))
        fun m hle hlt => hcovers m (by omega) (by omega)
      rw [Nat.add_assoc, ← byteLength_cons] at hafter
      exact ⟨after, rfl, hafter⟩
    | put actual hname _ => exact absurd hname (hstarts n (Nat.le_refl n) (by omega))
    | drop hname _ => exact absurd hname (hcovers n (Nat.le_refl n) (by omega))

/-- A part of the text that shares no character with a name stays.  What is put in where it starts
stands in front of it. -/
theorem Carries.untouched {part : List Char} (h : Carries t n (part ++ rest) out)
    (huntouched : t.touches n (n + byteLength part) = false) :
    ∃ before after, out = before ++ part ++ after ∧
      Carries t (n + byteLength part) rest after := by
  have hcovers : ∀ m, n ≤ m → m < n + byteLength part → ¬t.CoversName m := by
    rintro m hle hlt ⟨token, hmem, hname, hoffset, hstop⟩
    rw [Template.touches_iff.2 ⟨token, hmem, hname, by omega, by omega⟩] at huntouched
    cases huntouched
  have hstarts : ∀ m, n < m → m < n + byteLength part → ¬t.StartsName m := by
    rintro m hle hlt ⟨token, hmem, hname, hoffset⟩
    have hstop : m ≤ token.stop := by
      rw [Token.stop]
      omega
    rw [Template.touches_iff.2 ⟨token, hmem, hname, by omega, by omega⟩] at huntouched
    cases huntouched
  cases part with
  | nil => exact ⟨[], out, rfl, h⟩
  | cons c part =>
    have hpos := c.utf8Size_pos
    rw [byteLength_cons] at hcovers hstarts
    generalize hcs : c :: part ++ rest = cs at h
    induction h with
    | done => cases hcs
    | @keep n d cs out h ih =>
      obtain ⟨rfl, rfl⟩ := List.cons.inj hcs
      obtain ⟨after, rfl, hafter⟩ := h.free (fun m hle hlt => hstarts m (by omega) (by omega))
        fun m hle hlt => hcovers m (by omega) (by omega)
      rw [Nat.add_assoc, ← byteLength_cons] at hafter
      exact ⟨[], after, rfl, hafter⟩
    | put actual _ _ ih =>
      obtain ⟨before, after, rfl, hafter⟩ := ih huntouched hcovers hstarts hcs
      exact ⟨actual ++ before, after, by simp only [List.append_assoc], hafter⟩
    | drop hname _ => exact absurd hname (hcovers _ (Nat.le_refl _) (by omega))

end Carries

/-- The texts of the literals that share no character with a marked name. -/
def Template.untouched (t : Template) (literals : List (Nat × List Char)) : List (List Char) :=
  (literals.filter fun literal =>
    !t.touches literal.1 (literal.1 + byteLength literal.2)).map (·.2)

theorem inOrder_untouched {t : Template} {n : Nat} {segments : List Segment} {out : List Char}
    (h : Carries t n (segments.flatMap Segment.text) out) :
    InOrder (t.untouched (literalsFrom n segments)) out := by
  induction segments generalizing n out with
  | nil => trivial
  | cons segment segments ih =>
    cases segment with
    | outside c =>
      have hc : Carries t n ([c] ++ segments.flatMap Segment.text) out := h
      obtain ⟨before, after, rfl, hafter⟩ := hc.split
      exact (ih hafter).prepend before
    | literal content =>
      cases htouches : t.touches n (n + byteLength (Segment.literal content).text) with
      | true =>
        obtain ⟨before, after, rfl, hafter⟩ := Carries.split h
        simpa [literalsFrom, Template.untouched, htouches] using (ih hafter).prepend before
      | false =>
        obtain ⟨before, after, rfl, hafter⟩ := Carries.untouched h htouches
        have hrest : InOrder ((Segment.literal content).text ::
            t.untouched (literalsFrom (n + byteLength (Segment.literal content).text) segments))
            (before ++ (Segment.literal content).text ++ after) :=
          ⟨before, after, rfl, ih hafter⟩
        simpa [literalsFrom, Template.untouched, htouches] using hrest

/-! ## Names inside of literals -/

theorem exists_of_mem_literalsFrom {start : Nat} {segments : List Segment}
    {literal : Nat × List Char} (h : literal ∈ literalsFrom start segments) :
    ∃ front body back,
      segments.flatMap Segment.text = front ++ ('\'' :: body ++ ['\'']) ++ back ∧
        literal = (start + byteLength front, '\'' :: body ++ ['\'']) := by
  induction segments generalizing start with
  | nil => cases h
  | cons segment segments ih =>
    cases segment with
    | outside c =>
      obtain ⟨front, body, back, htext, rfl⟩ := ih h
      refine ⟨c :: front, body, back, by rw [List.flatMap_cons, htext]; rfl, ?_⟩
      rw [byteLength_cons, Nat.add_assoc]
    | literal content =>
      rcases List.mem_cons.1 h with rfl | h
      · exact ⟨[], doubleQuotes content, segments.flatMap Segment.text, rfl, rfl⟩
      · obtain ⟨front, body, back, htext, rfl⟩ := ih h
        refine ⟨(Segment.literal content).text ++ front, body, back, ?_, ?_⟩
        · rw [List.flatMap_cons, htext]
          simp only [List.append_assoc]
        · rw [byteLength_append, Nat.add_assoc]

/-- Of two starts of one text, the shorter one is a start of the longer one. -/
theorem exists_append_of_byteLength_le {front back front' back' : List Char}
    (h : front ++ back = front' ++ back') (hle : byteLength front ≤ byteLength front') :
    ∃ gap, front' = front ++ gap ∧ back = gap ++ back' := by
  rcases List.append_eq_append_iff.1 h with ⟨gap, hfront, hback⟩ | ⟨gap, rfl, rfl⟩
  · exact ⟨gap, hfront, hback⟩
  · cases gap with
    | nil => exact ⟨[], by simp, rfl⟩
    | cons c gap =>
      have hpos := c.utf8Size_pos
      rw [byteLength_append, byteLength_cons] at hle
      omega

section Quoted

variable {word front body back : List Char} {n : Nat}

/-- A word without quotes that shares a character with a literal stands inside of it. -/
theorem WordAt.within (h : WordAt word (front ++ ('\'' :: body ++ ['\'']) ++ back) n)
    (hquote : '\'' ∉ word)
    (hoffset : n < byteLength front + byteLength ('\'' :: body ++ ['\'']))
    (hstop : byteLength front < n + byteLength word) :
    ∃ m, WordAt word ('\'' :: body ++ ['\'']) m := by
  have hsize : '\''.utf8Size = 1 := rfl
  have hfirst : front ++ ('\'' :: body ++ ['\'']) ++ back =
      front ++ '\'' :: (body ++ '\'' :: back) := by simp
  have hlast : front ++ ('\'' :: body ++ ['\'']) ++ back =
      (front ++ '\'' :: body) ++ '\'' :: back := by simp
  have hopen := h.outside hfirst hquote
  have hclose := h.outside hlast hquote
  simp only [byteLength_append, byteLength_cons, byteLength_nil, hsize] at hoffset hclose
  obtain ⟨before, after, htext, rfl, hbefore, hafter⟩ := h
  have hcut : (front ++ ['\'']) ++ (body ++ '\'' :: back) = before ++ (word ++ after) := by
    simpa using htext
  obtain ⟨gap, rfl, hbody⟩ := exists_append_of_byteLength_le hcut (by simp [hsize]; omega)
  simp only [byteLength_append, byteLength_cons, byteLength_nil, hsize] at hoffset hclose
  have hcut' : (gap ++ word) ++ after = body ++ '\'' :: back := by
    rw [hbody, List.append_assoc]
  obtain ⟨gap', rfl, rfl⟩ := exists_append_of_byteLength_le hcut'
    (by rw [byteLength_append]; omega)
  refine ⟨byteLength ('\'' :: gap), '\'' :: gap, gap' ++ ['\''], by simp, rfl, ?_, ?_⟩
  · rw [List.append_assoc, List.getLast?_append_of_ne_nil _ (by simp)] at hbefore
    exact hbefore
  · cases gap' with
    | nil => rfl
    | cons c gap' => exact hafter

/-- A word that stands inside of a literal stands in the text. -/
theorem WordAt.of_literal {m : Nat} (h : WordAt word ('\'' :: body ++ ['\'']) m)
    (hne : word ≠ []) (hquote : '\'' ∉ word) :
    WordAt word (front ++ ('\'' :: body ++ ['\'']) ++ back) (byteLength front + m) := by
  obtain ⟨before, after, htext, rfl, hbefore, hafter⟩ := h
  have hstart : before ≠ [] := by
    rintro rfl
    obtain ⟨c, word, rfl⟩ := List.exists_cons_of_ne_nil hne
    obtain ⟨rfl, -⟩ := List.cons.inj htext
    simp at hquote
  have hend : after ≠ [] := by
    rintro rfl
    obtain ⟨word, c, rfl⟩ := (List.eq_nil_or_concat' word).resolve_left hne
    rw [List.append_nil, ← List.append_assoc] at htext
    obtain ⟨-, hlast⟩ := List.append_inj' htext rfl
    simp [← hlast] at hquote
  refine ⟨front ++ before, after ++ back, ?_, byteLength_append _ _, ?_, ?_⟩
  · rw [htext]
    simp only [List.append_assoc]
  · rwa [List.getLast?_append_of_ne_nil _ hstart]
  · rwa [List.head?_append_of_ne_nil _ hend]

end Quoted

section Scan

variable {text : String} {tables : List String} {segments : List Segment}
  {literal : Nat × List Char}

theorem quote_notMem_of_map_toLower {word : List Char} {name : String}
    (hquote : '\'' ∉ name.toList) (hword : word.map Char.toLower = foldCase name) :
    '\'' ∉ word := by
  intro hmem
  have hfolded : Char.toLower '\'' ∈ foldCase name := by
    rw [← hword]
    exact List.mem_map_of_mem hmem
  obtain ⟨c, hc, hlower⟩ := List.mem_map.1 hfolded
  have hcode : c.toLower.toNat = 39 := by
    rw [hlower]
    rfl
  rcases toLower_cases c with hsame | ⟨hcapital, hlater⟩
  · have hquoted : c = '\'' := hsame.symm.trans hlower
    exact hquote (hquoted ▸ hc)
  · omega

/-- A literal that shares characters with a marked name holds the name, if names have no quotes. -/
theorem exists_standsAt_of_touches (hquote : ∀ table ∈ tables, '\'' ∉ table.toList)
    (htext : segments.flatMap Segment.text = text.toList)
    (hliteral : literal ∈ literalsFrom 0 segments)
    (h : (Template.scan text tables).touches literal.1 (literal.1 + byteLength literal.2) = true) :
    ∃ table ∈ tables, ∃ n, StandsAt table literal.2 n := by
  obtain ⟨token, htoken, hname, hoffset, hstop⟩ := Template.touches_iff.1 h
  obtain ⟨front, body, back, hsegments, rfl⟩ := exists_of_mem_literalsFrom hliteral
  rw [htext] at hsegments
  rcases mem_scan_tokens.1 htoken with ⟨table, htable, htoken⟩ | htoken | htoken
  · obtain ⟨start, hstart, rfl⟩ := mem_tableTokens.1 htoken
    obtain ⟨word, hword, hlower⟩ :=
      wordAt_map_toLower.1 (wordAt_of_mem_wordPositions hstart)
    have hlength : byteLength (foldCase table) = byteLength word := by
      rw [← hlower, byteLength_map_toLower]
    rw [hsegments] at hword
    simp only [Token.stop, Token.offset, Token.length, hlength] at hoffset hstop
    obtain ⟨m, hwithin⟩ := hword.within
      (quote_notMem_of_map_toLower (hquote table htable) hlower) (by omega) (by omega)
    exact ⟨table, htable, m, word, hwithin, hlower⟩
  · obtain ⟨_, _, _, rfl⟩ := exists_of_mem_derivedTokens htoken
    cases hname
  · obtain ⟨_, _, _, rfl⟩ := exists_of_mem_paginationTokens htoken
    cases hname

/-- A literal in which a name stands shares characters with a marked name. -/
theorem touches_of_standsAt {table : String} {n : Nat} (htable : table ∈ tables)
    (hname : isWord table = true) (htext : segments.flatMap Segment.text = text.toList)
    (hliteral : literal ∈ literalsFrom 0 segments) (h : StandsAt table literal.2 n) :
    (Template.scan text tables).touches literal.1 (literal.1 + byteLength literal.2) = true := by
  obtain ⟨front, body, back, hsegments, rfl⟩ := exists_of_mem_literalsFrom hliteral
  obtain ⟨word, hword, hlower⟩ := h
  dsimp only at hword ⊢
  obtain ⟨hne, hall⟩ := isWord_foldCase hname
  rw [← hlower] at hne hall
  have hquote : '\'' ∉ word := by
    intro hmem
    have hquoted := hall _ (List.mem_map_of_mem hmem)
    rw [isWordChar_toLower] at hquoted
    exact absurd hquoted (by decide)
  have hpos : 0 < byteLength word := byteLength_pos (by simpa using hne)
  have hstands : StandsAt table text.toList (byteLength front + n) := by
    rw [← htext, hsegments]
    exact ⟨word, hword.of_literal (by simpa using hne) hquote, hlower⟩
  obtain ⟨before, after, hinside, rfl, -, -⟩ := hword
  have hfits := congrArg byteLength hinside
  rw [byteLength_append (before ++ word), byteLength_append before] at hfits
  have hlength : byteLength (foldCase table) = byteLength word := by
    rw [← hlower, byteLength_map_toLower]
  refine Template.touches_iff.2 ⟨.table (byteLength front + byteLength before)
    (byteLength (foldCase table)) table, mem_scan_tokens.2 (.inl ⟨table, htable,
      mem_tableTokens.2 ⟨_, (mem_wordPositions_foldCase hname).2 hstands, rfl⟩⟩), rfl, ?_, ?_⟩
  · simp only [Token.offset]
    omega
  · simp only [Token.stop, Token.offset, Token.length]
    omega

/-- In a physical statement with the pagination clause kept and no derived columns, all literals of
the text that share no character with a marked name stand as they are, in their order.  If names
have no quotes, every other literal holds a name as a whole word; and if names are words, a literal
that holds one is such a literal. -/
theorem Template.literals_kept_without_names {s : Substitution} {sql : String}
    (hread : readSegments? text.toList = some segments) (hderived : s.derived = [])
    (hpage : s.page = .keep) (hsql : (scan text tables).render s = .ok sql) :
    InOrder ((scan text tables).untouched (literalsFrom 0 segments)) sql.toList ∧
    ((∀ table ∈ tables, '\'' ∉ table.toList) → ∀ literal ∈ literalsFrom 0 segments,
      (scan text tables).touches literal.1 (literal.1 + byteLength literal.2) = true →
        ∃ table ∈ tables, ∃ n, StandsAt table literal.2 n) ∧
    ((∀ table ∈ tables, isWord table = true) → ∀ literal ∈ literalsFrom 0 segments,
      (∃ table ∈ tables, ∃ n, StandsAt table literal.2 n) →
        (scan text tables).touches literal.1 (literal.1 + byteLength literal.2) = true) := by
  have htext : segments.flatMap Segment.text = text.toList := flatMap_text_of_readSegments hread
  refine ⟨?_, ?_, ?_⟩
  · obtain ⟨out, hout, hcarries⟩ := carries_of_renderFrom (t := scan text tables) hderived hpage
      (fun _ htoken => htoken) (render_eq_ok.1 hsql)
    rw [hout, List.nil_append]
    have htexts : segments.flatMap Segment.text = (scan text tables).text.toList := htext
    rw [← htexts] at hcarries
    exact inOrder_untouched hcarries
  · intro hquote literal hliteral htouches
    exact exists_standsAt_of_touches hquote htext hliteral htouches
  · rintro hwords literal hliteral ⟨table, htable, n, hstands⟩
    exact touches_of_standsAt htable (hwords table htable) htext hliteral hstands

/-- The first shard's table of orders. -/
def firstOrders : Substitution where
  tables := [("t_order", "t_order_0")]
  derived := []
  page := .keep

/-- Of two literals, the one that does not hold the name stands in the statement as it is. -/
theorem literals_kept_without_names_select :
    ∃ segments,
      readSegments? "SELECT id FROM t_order WHERE name = 'O''Brien' AND note = 'in T_ORDER'".toList =
        some segments ∧
      (Template.scan "SELECT id FROM t_order WHERE name = 'O''Brien' AND note = 'in T_ORDER'"
        ["t_order"]).untouched (literalsFrom 0 segments) = ["'O''Brien'".toList] ∧
      InOrder ["'O''Brien'".toList]
        "SELECT id FROM t_order_0 WHERE name = 'O''Brien' AND note = 'in t_order_0'".toList := by
  have hmap : (readSegments?
        "SELECT id FROM t_order WHERE name = 'O''Brien' AND note = 'in T_ORDER'".toList).map
      (fun segments =>
        (Template.scan "SELECT id FROM t_order WHERE name = 'O''Brien' AND note = 'in T_ORDER'"
          ["t_order"]).untouched (literalsFrom 0 segments)) = some ["'O''Brien'".toList] := by
    rw [Template.scan_eq_insertion]
    decide +kernel
  obtain ⟨segments, hread, huntouched⟩ := Option.map_eq_some_iff.1 hmap
  have hkept : InOrder ((Template.scan
      "SELECT id FROM t_order WHERE name = 'O''Brien' AND note = 'in T_ORDER'"
        ["t_order"]).untouched (literalsFrom 0 segments))
      "SELECT id FROM t_order_0 WHERE name = 'O''Brien' AND note = 'in t_order_0'".toList := by
    refine (Template.literals_kept_without_names (s := firstOrders) hread rfl rfl ?_).1
    rw [Template.scan_eq_insertion]
    rfl
  rw [huntouched] at hkept
  exact ⟨segments, hread, huntouched, hkept⟩

/-- A literal that is the name of a table is replaced, and stands nowhere in the statement. -/
theorem literal_replaced_select :
    (readSegments? "SELECT id FROM t_order WHERE note = 't_order'".toList).map
      (literalsFrom 0) = some [(36, "'t_order'".toList)] ∧
    firstOrders.derived = [] ∧ firstOrders.page = .keep ∧
    (Template.scan "SELECT id FROM t_order WHERE note = 't_order'" ["t_order"]).render
      firstOrders = .ok "SELECT id FROM t_order_0 WHERE note = 't_order_0'" ∧
    ¬"'t_order'".toList <:+: "SELECT id FROM t_order_0 WHERE note = 't_order_0'".toList := by
  refine ⟨by decide +kernel, rfl, rfl, ?_, by decide +kernel⟩
  rw [Template.scan_eq_insertion]
  rfl

end Scan

end Sharding.Sql
