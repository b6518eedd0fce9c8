import Mathlib.Data.List.Induction
import Sharding.Proofs.Results
import Sharding.Sql.Render

/-!
# Names inside physical statements

The text of a physical statement tells which actual tables it names.  Where two substitutions differ
in their tables only and a template comes out the same under both, they name the same actual table
for every table that the template mentions (`Template.actual?_of_render`).

This takes names that are words, and tokens that stand apart: in front of the name of a table the
template has a character that belongs to no word.  So the last word of what is written up to the end
of a name is the name (`last_word`).  `Alike` is the relation between the two texts while they are
written.
-/

namespace Sharding

/-- Whether a name is a word: it has characters, and all of them belong to words. -/
def isWord (name : String) : Bool :=
  !name.toList.isEmpty && name.toList.all isWordChar

theorem isWord_iff {name : String} :
    isWord name = true ↔ name.toList ≠ [] ∧ ∀ c ∈ name.toList, isWordChar c = true := by
  rw [isWord, Bool.and_eq_true, List.all_eq_true]
  simp

theorem isWordChar_iff {c : Char} :
    isWordChar c = true ↔ (65 ≤ c.toNat ∧ c.toNat ≤ 90) ∨ (97 ≤ c.toNat ∧ c.toNat ≤ 122) ∨
      (48 ≤ c.toNat ∧ c.toNat ≤ 57) ∨ c.toNat = 95 := by
  have hunderscore : c = '_' ↔ c.toNat = 95 :=
    ⟨fun h => h ▸ rfl, fun h => Char.toNat_inj.1 h⟩
  delta isWordChar Char.isAlphanum Char.isAlpha Char.isUpper Char.isLower Char.isDigit
  simp only [Bool.or_eq_true, Bool.and_eq_true, decide_eq_true_eq, UInt32.le_iff_toNat_le,
    ge_iff_le, beq_iff_eq, hunderscore]
  change (((65 ≤ c.toNat ∧ c.toNat ≤ 90) ∨ (97 ≤ c.toNat ∧ c.toNat ≤ 122)) ∨
    (48 ≤ c.toNat ∧ c.toNat ≤ 57)) ∨ c.toNat = 95 ↔ _
  omega

theorem toNat_of_isWordChar {c : Char} (h : isWordChar c = true) :
    48 ≤ c.toNat ∧ c.toNat ≤ 122 := by
  rw [isWordChar_iff] at h
  omega

/-- White space belongs to no word. -/
theorem isBlank_of_isWordChar {c : Char} (h : isWordChar c = true) : isBlank c = false := by
  obtain ⟨hle, hge⟩ := toNat_of_isWordChar h
  simp only [isBlank, Bool.or_eq_false_iff, Bool.and_eq_false_iff, decide_eq_false_iff_not,
    beq_eq_false_iff_ne]
  omega

theorem trimEnd_concat (cs : List Char) (c : Char) :
    trimEnd (cs ++ [c]) = if isBlank c then trimEnd cs else cs ++ [c] := by
  unfold trimEnd
  rw [List.reverse_append, List.reverse_singleton, List.singleton_append, List.dropWhile_cons]
  split
  · rfl
  · rw [List.reverse_cons, List.reverse_reverse]

namespace Sql

/-- The word at the end of a text, behind a character that ends words. -/
theorem last_word {front word : List Char} (hword : ∀ c ∈ word, isWordChar c = true)
    (hfront : endsWord front.getLast? = true) :
    (front ++ word).reverse.takeWhile isWordChar = word.reverse := by
  rw [List.reverse_append, List.takeWhile_append_of_pos fun c hc => hword c (List.mem_reverse.1 hc)]
  have hnone : front.reverse.takeWhile isWordChar = [] := by
    rw [← List.head?_reverse] at hfront
    cases hrev : front.reverse with
    | nil => rfl
    | cons c rest =>
      rw [hrev] at hfront
      have hc : isWordChar c = false := by simpa [endsWord] using hfront
      rw [List.takeWhile_cons_of_neg (by rw [hc]; exact Bool.false_ne_true)]
  rw [hnone, List.append_nil]

/-! ## Texts that differ in names -/

section Alike

variable {s s' : Substitution} {tables : List String} {written written' : List Char}

/-- Two substitutions differ in their tables only, and all actual tables are words. -/
structure Renames (s s' : Substitution) : Prop where
  derived : s.derived = s'.derived
  page : s.page = s'.page
  word : ∀ logical actual, s.actual? logical = some actual → isWord actual = true
  word' : ∀ logical actual, s'.actual? logical = some actual → isWord actual = true

/-- Two texts of the same characters but for the names of some tables: the actual tables that two
substitutions have for them.  Each name is a word of its own. -/
inductive Alike (s s' : Substitution) : List String → List Char → List Char → Prop
  | start : Alike s s' [] [] []
  | char {tables : List String} {written written' : List Char} (c : Char) :
      Alike s s' tables written written' →
      Alike s s' tables (written ++ [c]) (written' ++ [c])
  | name {tables : List String} {written written' : List Char} {logical actual actual' : String} :
      Alike s s' tables written written' →
      s.actual? logical = some actual → s'.actual? logical = some actual' →
      isWord actual = true → isWord actual' = true →
      endsWord written.getLast? = true → endsWord written'.getLast? = true →
      Alike s s' (tables ++ [logical]) (written ++ actual.toList) (written' ++ actual'.toList)

theorem Alike.append (h : Alike s s' tables written written') (cs : List Char) :
    Alike s s' tables (written ++ cs) (written' ++ cs) := by
  induction cs using List.reverseRecOn with
  | nil => simpa using h
  | append_singleton cs c ih =>
    rw [← List.append_assoc, ← List.append_assoc]
    exact ih.char c

theorem trimEnd_name {name : String} (hname : isWord name = true) (front : List Char) :
    trimEnd (front ++ name.toList) = front ++ name.toList := by
  obtain ⟨hne, hchars⟩ := isWord_iff.1 hname
  obtain ⟨init, last, hlast⟩ := (List.eq_nil_or_concat' name.toList).resolve_left hne
  have hblank : isBlank last = false := by
    refine isBlank_of_isWordChar (hchars last ?_)
    rw [hlast]
    exact List.mem_append_right _ List.mem_cons_self
  rw [hlast, ← List.append_assoc, trimEnd_concat, hblank]
  rfl

/-- Names end in no white space. -/
theorem Alike.trimEnd (h : Alike s s' tables written written') :
    Alike s s' tables (trimEnd written) (trimEnd written') := by
  induction h with
  | start => exact .start
  | char c h ih =>
    rw [trimEnd_concat, trimEnd_concat]
    split
    · exact ih
    · exact h.char c
  | name h hactual hactual' hword hword' hends hends' =>
    rw [trimEnd_name hword, trimEnd_name hword']
    exact h.name hactual hactual' hword hword' hends hends'

/-- Equal texts have equal names. -/
theorem Alike.actual?_eq (h : Alike s s' tables written written') (htext : written = written') :
    ∀ logical ∈ tables, s.actual? logical = s'.actual? logical := by
  induction h with
  | start => exact fun _ hmem => absurd hmem List.not_mem_nil
  | char c h ih => exact ih (List.append_cancel_right htext)
  | name h hactual hactual' hword hword' hends hends' ih =>
    have hlast := congrArg (fun cs => cs.reverse.takeWhile isWordChar) htext
    rw [last_word (isWord_iff.1 hword).2 hends, last_word (isWord_iff.1 hword').2 hends'] at hlast
    have hname := List.reverse_inj.1 hlast
    rw [hname] at htext
    intro logical hmem
    rcases List.mem_append.1 hmem with hmem | hmem
    · exact ih (List.append_cancel_right htext) logical hmem
    · cases List.mem_singleton.1 hmem
      rw [hactual, hactual', String.toList_inj.1 hname]

end Alike

/-! ## Templates -/

/-- The logical table that a token names. -/
def Token.table? : Token → Option String
  | table _ _ logical => some logical
  | _ => none

/-- The logical tables that the tokens of a template name. -/
def Template.tables (t : Template) : List String :=
  t.tokens.filterMap Token.table?

/-- Whether, in the text `rest` from the position `cursor` on, a character that belongs to no word
stands in front of the name of every table. -/
def namesApartFrom (cursor : Nat) (rest : List Char) : List Token → Bool
  | [] => true
  | token :: tokens =>
    match cutToken cursor rest token with
    | none => true
    | some (gap, _, rest) =>
      (token.table?.isNone || gap.getLast?.any fun c => !isWordChar c) &&
        namesApartFrom token.stop rest tokens

/-- Whether a character that belongs to no word stands in front of the name of every table. -/
def Template.namesApart (t : Template) : Bool :=
  namesApartFrom 0 t.text.toList t.tokens

section Render

variable {s s' : Substitution} {tables : List String} {written written' : List Char}

/-- A text up to the name of a table ends in a character that belongs to no word. -/
theorem endsWord_getLast?_append {gap : List Char}
    (h : (gap.getLast?.any fun c => !isWordChar c) = true) :
    endsWord (written ++ gap).getLast? = true := by
  cases hlast : gap.getLast? with
  | none =>
    rw [hlast] at h
    cases h
  | some c =>
    rw [hlast] at h
    rw [List.getLast?_append, hlast]
    exact h

/-- What is written for one token. -/
theorem Alike.apply {token : Token} {gap piece out out' : List Char}
    (h : Alike s s' tables written written') (hrenames : Renames s s')
    (hapart : (token.table?.isNone || gap.getLast?.any fun c => !isWordChar c) = true)
    (hout : s.apply token (written ++ gap) piece = .ok out)
    (hout' : s'.apply token (written' ++ gap) piece = .ok out') :
    Alike s s' (tables ++ token.table?.toList) out out' := by
  cases token with
  | table offset length logical =>
    unfold Substitution.apply at hout hout'
    dsimp only at hout hout'
    split at hout
    · rename_i actual hactual
      split at hout'
      · rename_i actual' hactual'
        cases hout
        cases hout'
        exact (h.append gap).name hactual hactual' (hrenames.word _ _ hactual)
          (hrenames.word' _ _ hactual') (endsWord_getLast?_append hapart)
          (endsWord_getLast?_append hapart)
      · cases hout'
    · cases hout
  | derived offset =>
    cases hout
    cases hout'
    rw [← hrenames.derived]
    simpa [Token.table?] using (h.append gap).append _
  | pagination offset length =>
    cases hout
    cases hout'
    have hnone : tables ++ (Token.pagination offset length).table?.toList = tables :=
      List.append_nil tables
    have h := h.append gap
    rw [hnone, ← hrenames.page]
    unfold PageClause.apply
    split
    · exact h.append piece
    · exact h.trimEnd
    · split
      · exact h.append _
      · exact h.trimEnd

/-- What is written for all tokens: the names of their tables come one after the other. -/
theorem Alike.renderFrom {text : String} {cursor : Nat} {rest out out' : List Char}
    {tokens : List Token} (h : Alike s s' tables written written') (hrenames : Renames s s')
    (hapart : namesApartFrom cursor rest tokens = true)
    (hout : Template.renderFrom text s cursor rest written tokens = .ok out)
    (hout' : Template.renderFrom text s' cursor rest written' tokens = .ok out') :
    Alike s s' (tables ++ tokens.filterMap Token.table?) out out' := by
  induction tokens generalizing tables cursor rest written written' with
  | nil =>
    cases hout
    cases hout'
    rw [List.filterMap_nil, List.append_nil]
    exact h.append rest
  | cons token tokens ih =>
    unfold Template.renderFrom at hout hout'
    unfold namesApartFrom at hapart
    split at hout
    · cases hout
    · rename_i gap piece rest hcut
      rw [hcut] at hout' hapart
      rw [Bool.and_eq_true] at hapart
      obtain ⟨next, hnext, hout⟩ := exists_of_bind_eq_ok hout
      obtain ⟨next', hnext', hout'⟩ := exists_of_bind_eq_ok hout'
      have hnames := ih (h.apply hrenames hapart.1 hnext hnext') hapart.2 hout hout'
      rw [List.append_assoc] at hnames
      cases htable : token.table? with
      | none => simpa [htable] using hnames
      | some logical => simpa [htable] using hnames

/-- Equal physical statements name equal actual tables. -/
theorem Template.actual?_of_render {t : Template} {sql : String} (hsql : t.render s = .ok sql)
    (hsql' : t.render s' = .ok sql) (hrenames : Renames s s') (hapart : t.namesApart = true) :
    ∀ logical ∈ t.tables, s.actual? logical = s'.actual? logical := by
  obtain ⟨out, hout, hsql⟩ := exists_of_bind_eq_ok hsql
  obtain ⟨out', hout', hsql'⟩ := exists_of_bind_eq_ok hsql'
  have htext : out = out' := by
    have heq : String.ofList out = String.ofList out' :=
      (Except.ok.inj hsql).trans (Except.ok.inj hsql').symm
    exact String.ofList_injective heq
  have halike := Alike.start.renderFrom hrenames hapart hout hout'
  exact halike.actual?_eq htext

end Render

end Sql

end Sharding
