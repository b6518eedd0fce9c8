import Sharding.Proofs.Sorting.Orders
import Sharding.Proofs.Sql.Splicing
import Sharding.Proofs.Sql.Words

/-!
# Where the tokens of a scan lie

The names of tables, the end of the select list and the pagination clause are searched for apart
from one another, and their tokens are sorted afterwards.  So they come in the order of their
positions, inside of the text and on boundaries of characters, and names do not overlap with one
another nor with the end of the select list (`pairwise_filter_scan`): a word has no character in
common with another word, and none with the space in front of `from`.

The pagination clause reaches from the last `limit` to the end of the text, whatever stands there.
A scan fits what rendering asks for exactly when nothing else is marked behind that word
(`Template.PageLast`); with a name or the end of the select list behind it, the template cannot be
rendered (`scan_renders_iff`).
-/

namespace Sharding.Sql

/-! ## Positions in a text -/

theorem isBoundary_iff {cs : List Char} {n : Nat} :
    isBoundary cs n = true ↔ ∃ front back, cs = front ++ back ∧ byteLength front = n := by
  simp [isBoundary, Option.isSome_iff_exists, splitAtByte_eq_some_iff]

/-- A text can be cut where its lowered copy can. -/
theorem isBoundary_map_toLower (cs : List Char) (n : Nat) :
    isBoundary (cs.map Char.toLower) n = isBoundary cs n := by
  rw [Bool.eq_iff_iff, isBoundary_iff, isBoundary_iff]
  constructor
  · rintro ⟨front, back, hcs, hn⟩
    obtain ⟨front', back', rfl, rfl, rfl⟩ := List.map_eq_append_iff.1 hcs
    exact ⟨front', back', rfl, by simpa using hn⟩
  · rintro ⟨front, back, rfl, hn⟩
    exact ⟨front.map Char.toLower, back.map Char.toLower, by simp, by simpa using hn⟩

theorem byteLength_pos {cs : List Char} (h : cs ≠ []) : 0 < byteLength cs := by
  obtain ⟨c, rest, rfl⟩ := List.exists_cons_of_ne_nil h
  have hpos := c.utf8Size_pos
  rw [byteLength_cons]
  omega

theorem exists_of_mem_positionsFrom {needle text : List Char} {offset n : Nat}
    (h : n ∈ positionsFrom needle offset text) :
    ∃ front back, text = front ++ needle ++ back ∧ n = offset + byteLength front := by
  induction text generalizing offset with
  | nil => cases h
  | cons c text ih =>
    have hlater : n ∈ positionsFrom needle (offset + c.utf8Size) text →
        ∃ front back, c :: text = front ++ needle ++ back ∧ n = offset + byteLength front := by
      intro h
      obtain ⟨front, back, rfl, rfl⟩ := ih h
      exact ⟨c :: front, back, rfl, by rw [byteLength_cons, Nat.add_assoc]⟩
    rw [positionsFrom] at h
    split at h
    next hmatch =>
      rcases List.mem_cons.1 h with rfl | h
      · obtain ⟨back, hback⟩ := List.isPrefixOf_iff_prefix.1 hmatch
        exact ⟨[], back, hback.symm, rfl⟩
      · exact hlater h
    next => exact hlater h

/-! ## Words apart -/

section Words

variable {word word' text : List Char} {n n' : Nat}

theorem takeWhile_word {rest : List Char} (hword : ∀ c ∈ word, isWordChar c = true)
    (hrest : endsWord rest.head? = true) : (word ++ rest).takeWhile isWordChar = word := by
  rw [List.takeWhile_append_of_pos hword]
  cases rest with
  | nil => simp
  | cons c rest =>
    have hc : isWordChar c = false := endsWord_some.1 hrest
    simp [hc]

/-- A character that is not in a word stands in front of the word or behind it. -/
theorem WordAt.outside (h : WordAt word text n) {front back : List Char} {c : Char}
    (htext : text = front ++ c :: back) (hc : c ∉ word) :
    byteLength front < n ∨ n + byteLength word ≤ byteLength front := by
  obtain ⟨before, after, rfl, rfl, -, -⟩ := h
  rw [List.append_assoc] at htext
  rcases List.append_eq_append_iff.1 htext with ⟨gap, rfl, hrest⟩ | ⟨gap, rfl, hrest⟩
  · rcases List.append_eq_append_iff.1 hrest with ⟨gap', rfl, -⟩ | ⟨gap', rfl, hback⟩
    · right
      rw [byteLength_append, byteLength_append]
      omega
    · cases gap' with
      | nil => simp
      | cons d gap' =>
        obtain ⟨rfl, -⟩ := List.cons.inj hback
        simp at hc
  · cases gap with
    | nil =>
      cases word with
      | nil => simp
      | cons d word =>
        obtain ⟨rfl, -⟩ := List.cons.inj hrest
        simp at hc
    | cons d gap =>
      have hpos := d.utf8Size_pos
      left
      rw [byteLength_append, byteLength_cons]
      omega

/-- Of two words that stand in one text, the later one is the earlier one or stands behind it. -/
theorem eq_or_le_of_append {before word after gap word' after' : List Char}
    (hword : ∀ c ∈ word, isWordChar c = true) (hword' : ∀ c ∈ word', isWordChar c = true)
    (hafter : endsWord after.head? = true) (hafter' : endsWord after'.head? = true)
    (hbefore' : endsWord (before ++ gap).getLast? = true)
    (h : word ++ after = gap ++ (word' ++ after')) :
    gap = [] ∧ word = word' ∨ byteLength word ≤ byteLength gap := by
  rcases List.append_eq_append_iff.1 h with ⟨rest, rfl, -⟩ | ⟨rest, rfl, -⟩
  · right
    rw [byteLength_append]
    omega
  · rcases List.eq_nil_or_concat' gap with rfl | ⟨gap, c, rfl⟩
    · refine .inl ⟨rfl, ?_⟩
      simp only [List.nil_append] at h hword ⊢
      have htake := congrArg (List.takeWhile isWordChar) h
      rw [takeWhile_word hword hafter, takeWhile_word hword' hafter'] at htake
      exact htake
    · -- The character in front of the later word would be one of the earlier word.
      have hc : isWordChar c = true := hword c (by simp)
      rw [← List.append_assoc, List.getLast?_concat, endsWord_some, hc] at hbefore'
      cases hbefore'

/-- Two words that stand in one text are the same, or one stands behind the other. -/
theorem WordAt.apart (h : WordAt word text n) (h' : WordAt word' text n')
    (hword : ∀ c ∈ word, isWordChar c = true) (hword' : ∀ c ∈ word', isWordChar c = true) :
    n = n' ∧ word = word' ∨ n + byteLength word ≤ n' ∨ n' + byteLength word' ≤ n := by
  obtain ⟨before, after, rfl, rfl, hbefore, hafter⟩ := h
  obtain ⟨before', after', htext, rfl, hbefore', hafter'⟩ := h'
  rw [List.append_assoc, List.append_assoc] at htext
  rcases List.append_eq_append_iff.1 htext with ⟨gap, rfl, hrest⟩ | ⟨gap, rfl, hrest⟩
  · rw [byteLength_append]
    rcases eq_or_le_of_append hword hword' hafter hafter' hbefore' hrest with ⟨rfl, rfl⟩ | hle
    · simp
    · omega
  · rw [byteLength_append]
    rcases eq_or_le_of_append hword' hword hafter' hafter hbefore hrest with ⟨rfl, rfl⟩ | hle
    · simp
    · omega

end Words

/-! ## The tokens of a scan -/

section Tokens

variable {text : String} {tables : List String} {lowered : List Char} {token : Token}

theorem mem_tableTokens {table : String} :
    token ∈ Template.tableTokens lowered table ↔
      ∃ start ∈ wordPositions (foldCase table) lowered,
        token = .table start (byteLength (foldCase table)) table := by
  simp [Template.tableTokens, eq_comm]

theorem exists_of_mem_derivedTokens (h : token ∈ Template.derivedTokens lowered) :
    ∃ front back, lowered = front ++ " from ".toList ++ back ∧
      token = .derived (byteLength front) := by
  unfold Template.derivedTokens at h
  split at h
  next =>
    obtain ⟨start, hstart, rfl⟩ := Option.map_eq_some_iff.1 (Option.mem_toList.1 h)
    obtain ⟨front, back, htext, hoffset⟩ := exists_of_mem_positionsFrom (List.mem_of_head? hstart)
    exact ⟨front, back, htext, by rw [hoffset, Nat.zero_add]⟩
  next => cases h

theorem exists_of_mem_paginationTokens (h : token ∈ Template.paginationTokens lowered) :
    ∃ front back, lowered = front ++ " limit ".toList ++ back ∧
      token = .pagination (byteLength front + 1) (byteLength lowered - byteLength front - 1) := by
  unfold Template.paginationTokens at h
  obtain ⟨start, hstart, rfl⟩ := Option.map_eq_some_iff.1 (Option.mem_toList.1 h)
  obtain ⟨front, back, htext, hoffset⟩ :=
    exists_of_mem_positionsFrom (List.mem_of_getLast? hstart)
  rw [Nat.zero_add] at hoffset
  exact ⟨front, back, htext, by rw [hoffset]⟩

theorem mem_scan_tokens :
    token ∈ (Template.scan text tables).tokens ↔
      (∃ table ∈ tables, token ∈ Template.tableTokens (foldCase text) table) ∨
        token ∈ Template.derivedTokens (foldCase text) ∨
        token ∈ Template.paginationTokens (foldCase text) := by
  rw [Template.scan, (List.mergeSort_perm _ _).mem_iff, List.mem_append, List.mem_append,
    List.mem_flatMap, or_assoc]

/-- The template with its tokens sorted by insertion, which is how one is evaluated. -/
theorem Template.scan_eq_insertion (text : String) (tables : List String) :
    scan text tables =
      { text
        tokens := Sorting.insertion (fun a b => a.offset < b.offset)
          (tables.flatMap (tableTokens (foldCase text)) ++ derivedTokens (foldCase text) ++
            paginationTokens (foldCase text)) } :=
  congrArg (Template.mk text) (Sorting.mergeSort_eq_insertion Token.offset _)

/-- A token that covers a part of the lowered text lies inside of the text. -/
theorem Token.inside_of_append {before piece after : List Char}
    (htext : foldCase text = before ++ piece ++ after) (hoffset : token.offset = byteLength before)
    (hstop : token.stop = byteLength (before ++ piece)) : token.Inside text.toList := by
  have hboundary : ∀ {n front back}, foldCase text = front ++ back → n = byteLength front →
      isBoundary text.toList n = true := by
    intro n front back h hn
    rw [← isBoundary_map_toLower, isBoundary_iff]
    exact ⟨front, back, h, hn.symm⟩
  have hback : foldCase text = before ++ (piece ++ after) := by
    rw [htext, List.append_assoc]
  exact ⟨isBoundary_le (hboundary htext hstop), hboundary hback hoffset, hboundary htext hstop⟩

/-- The tokens of a scan lie inside of the text and cut no character. -/
theorem inside_of_mem_scan (h : token ∈ (Template.scan text tables).tokens) :
    token.Inside text.toList := by
  rcases mem_scan_tokens.1 h with ⟨table, -, h⟩ | h | h
  · obtain ⟨start, hstart, rfl⟩ := mem_tableTokens.1 h
    obtain ⟨before, after, htext, rfl, -, -⟩ := wordAt_of_mem_wordPositions hstart
    exact Token.inside_of_append htext rfl (byteLength_append _ _).symm
  · obtain ⟨front, back, htext, rfl⟩ := exists_of_mem_derivedTokens h
    rw [List.append_assoc, ← List.append_nil front] at htext
    refine Token.inside_of_append htext ?_ ?_ <;> simp [Token.stop, Token.offset, Token.length]
  · obtain ⟨front, back, htext, rfl⟩ := exists_of_mem_paginationTokens h
    have hspace : foldCase text = front ++ [' '] ++ ("limit ".toList ++ back) ++ [] := by
      rw [htext]
      simp
    refine Token.inside_of_append hspace ?_ ?_
    · rw [byteLength_append]
      rfl
    · have hlength := congrArg byteLength hspace
      simp only [byteLength_append, byteLength_cons, byteLength_nil] at hlength ⊢
      have hone : ' '.utf8Size = 1 := rfl
      simp only [Token.stop, Token.offset, Token.length]
      omega

/-- One of two tokens ends in front of the other. -/
def Token.Apart (a b : Token) : Prop :=
  (a.offset < b.offset ∧ a.stop ≤ b.offset) ∨ (b.offset < a.offset ∧ b.stop ≤ a.offset)

instance : Std.Symm Token.Apart where
  symm _ _ := Or.symm

/-- Sorted tokens that are apart follow one another. -/
theorem pairwise_endsBefore {tokens : List Token}
    (hsorted : tokens.Pairwise fun token next => token.offset ≤ next.offset)
    (hapart : tokens.Pairwise Token.Apart) :
    tokens.Pairwise Token.EndsBefore := by
  refine (hsorted.and hapart).imp ?_
  rintro a b ⟨hle, h | h⟩ <;> unfold Token.EndsBefore <;> omega

/-- The names of tables are words, and no two of them are the same. -/
structure DistinctWords (tables : List String) : Prop where
  words : ∀ table ∈ tables, isWord table = true
  distinct : tables.Pairwise fun table other => sameName table other = false

/-- The tokens of names are apart from one another. -/
theorem pairwise_tableTokens (h : DistinctWords tables) :
    (tables.flatMap (Template.tableTokens lowered)).Pairwise Token.Apart := by
  refine List.pairwise_flatMap.2 ⟨?_, ?_⟩
  · intro table htable
    obtain ⟨hne, hword⟩ := isWord_foldCase (h.words table htable)
    have hpos := byteLength_pos hne
    have hincreasing : (wordPositions (foldCase table) lowered).Pairwise (· < ·) :=
      pairwise_wordPositionsFrom ..
    rw [Template.tableTokens, List.pairwise_map]
    refine hincreasing.imp_of_mem ?_
    intro start start' hstart hstart' hlt
    have hapart := (wordAt_of_mem_wordPositions hstart).apart
      (wordAt_of_mem_wordPositions hstart') hword hword
    left
    simp only [Token.stop, Token.offset, Token.length]
    omega
  · refine h.distinct.imp_of_mem ?_
    intro table other htable hother hdistinct token htoken token' htoken'
    obtain ⟨hne, hword⟩ := isWord_foldCase (h.words table htable)
    obtain ⟨hne', hword'⟩ := isWord_foldCase (h.words other hother)
    obtain ⟨start, hstart, rfl⟩ := mem_tableTokens.1 htoken
    obtain ⟨start', hstart', rfl⟩ := mem_tableTokens.1 htoken'
    have hpos := byteLength_pos hne
    have hpos' := byteLength_pos hne'
    have hapart := (wordAt_of_mem_wordPositions hstart).apart
      (wordAt_of_mem_wordPositions hstart') hword hword'
    have hother : foldCase table ≠ foldCase other := by
      simpa [sameName] using hdistinct
    simp only [hother, and_false, false_or] at hapart
    simp only [Token.Apart, Token.stop, Token.offset, Token.length]
    omega

/-- A name and a space are apart. -/
theorem apart_of_mem_tableTokens {table : String} {front back : List Char}
    (htable : isWord table = true) (h : token ∈ Template.tableTokens lowered table)
    (htext : lowered = front ++ ' ' :: back) :
    byteLength front < token.offset ∨
      token.offset < token.stop ∧ token.stop ≤ byteLength front := by
  obtain ⟨hne, hword⟩ := isWord_foldCase htable
  obtain ⟨start, hstart, rfl⟩ := mem_tableTokens.1 h
  have hpos := byteLength_pos hne
  have hspace : ' ' ∉ foldCase table :=
    fun hmem => absurd (hword ' ' hmem) (by decide)
  have houtside := (wordAt_of_mem_wordPositions hstart).outside htext hspace
  simp only [Token.stop, Token.offset, Token.length]
  omega

/-- The tokens of names and of the end of the select list are apart from one another. -/
theorem pairwise_apart (h : DistinctWords tables) :
    (tables.flatMap (Template.tableTokens lowered) ++ Template.derivedTokens lowered).Pairwise
      Token.Apart := by
  refine List.pairwise_append.2 ⟨pairwise_tableTokens h, ?_, ?_⟩
  · unfold Template.derivedTokens
    split
    · cases (positions " from ".toList lowered).head? <;> simp
    · exact List.Pairwise.nil
  · intro token htoken end_ hend
    obtain ⟨table, htable, htoken⟩ := List.mem_flatMap.1 htoken
    obtain ⟨front, back, htext, rfl⟩ := exists_of_mem_derivedTokens hend
    have hspace : lowered = front ++ ' ' :: ("from ".toList ++ back) := by
      rw [htext]
      simp
    have hapart := apart_of_mem_tableTokens (h.words table htable) htoken hspace
    simp only [Token.Apart, Token.stop, Token.offset, Token.length] at hapart ⊢
    omega

end Tokens

/-! ## Rendering what was scanned -/

/-- A token is that of the pagination clause. -/
def Token.isPage : Token → Bool
  | pagination _ _ => true
  | _ => false

/-- All other tokens of a template start in front of the pagination clause, if it has one. -/
def Template.PageLast (t : Template) : Prop :=
  ∀ page ∈ t.tokens, page.isPage = true →
    ∀ token ∈ t.tokens, token.isPage = false → token.offset < page.offset

section Scan

variable {text : String} {tables : List String} {lowered : List Char}

theorem isPage_of_mem_paginationTokens {token : Token}
    (h : token ∈ Template.paginationTokens lowered) : token.isPage = true := by
  obtain ⟨_, _, _, rfl⟩ := exists_of_mem_paginationTokens h
  rfl

theorem isPage_of_mem_append {token : Token}
    (h : token ∈ tables.flatMap (Template.tableTokens lowered) ++ Template.derivedTokens lowered) :
    token.isPage = false := by
  rcases List.mem_append.1 h with h | h
  · obtain ⟨table, -, h⟩ := List.mem_flatMap.1 h
    obtain ⟨_, _, rfl⟩ := mem_tableTokens.1 h
    rfl
  · obtain ⟨_, _, _, rfl⟩ := exists_of_mem_derivedTokens h
    rfl

theorem filter_isPage_tokens :
    (tables.flatMap (Template.tableTokens lowered) ++ Template.derivedTokens lowered ++
        Template.paginationTokens lowered).filter (fun token => !token.isPage) =
      tables.flatMap (Template.tableTokens lowered) ++ Template.derivedTokens lowered := by
  rw [List.filter_append, List.filter_eq_self.2, List.filter_eq_nil_iff.2, List.append_nil]
  · intro token htoken
    simp [isPage_of_mem_paginationTokens htoken]
  · intro token htoken
    simp [isPage_of_mem_append htoken]

theorem mem_scan_tokens_append {token : Token} :
    token ∈ (Template.scan text tables).tokens ↔
      token ∈ tables.flatMap (Template.tableTokens (foldCase text)) ++
          Template.derivedTokens (foldCase text) ∨
        token ∈ Template.paginationTokens (foldCase text) := by
  rw [mem_scan_tokens, List.mem_append, List.mem_flatMap, or_assoc]

/-- Names and the end of the select list do not overlap. -/
theorem pairwise_filter_scan (h : DistinctWords tables) :
    ((Template.scan text tables).tokens.filter fun token => !token.isPage).Pairwise
      Token.EndsBefore := by
  refine pairwise_endsBefore ((pairwise_scan_tokens text tables).filter _) ?_
  have hperm : ((Template.scan text tables).tokens.filter fun token => !token.isPage).Perm _ :=
    (List.mergeSort_perm _ _).filter _
  rw [filter_isPage_tokens] at hperm
  exact (hperm.pairwise_iff fun h => Or.symm h).2 (pairwise_apart h)

/-- With the pagination clause last, no two tokens overlap. -/
theorem pairwise_scan_of_pageLast (h : DistinctWords tables)
    (hlast : (Template.scan text tables).PageLast) :
    (Template.scan text tables).tokens.Pairwise Token.EndsBefore := by
  refine pairwise_endsBefore (pairwise_scan_tokens text tables) ?_
  refine ((List.mergeSort_perm _ _).pairwise_iff fun h => Or.symm h).2 ?_
  refine List.pairwise_append.2 ⟨pairwise_apart h, ?_, ?_⟩
  · unfold Template.paginationTokens
    cases (positions " limit ".toList (foldCase text)).getLast? <;> simp
  · intro token htoken page hpage
    have hbefore : token.offset < page.offset :=
      hlast page (mem_scan_tokens_append.2 (.inr hpage)) (isPage_of_mem_paginationTokens hpage)
        token (mem_scan_tokens_append.2 (.inl htoken)) (isPage_of_mem_append htoken)
    obtain ⟨front, back, htext, rfl⟩ := exists_of_mem_paginationTokens hpage
    refine .inl ⟨hbefore, ?_⟩
    rcases List.mem_append.1 htoken with htoken | htoken
    · -- The space in front of the clause keeps a name from reaching into it.
      obtain ⟨table, htable, htoken⟩ := List.mem_flatMap.1 htoken
      have hspace : foldCase text = front ++ ' ' :: ("limit ".toList ++ back) := by
        rw [htext]
        simp
      have hapart := apart_of_mem_tableTokens (h.words table htable) htoken hspace
      simp only [Token.offset] at hbefore hapart ⊢
      omega
    · obtain ⟨_, _, _, rfl⟩ := exists_of_mem_derivedTokens htoken
      exact Nat.le_of_lt hbefore

/-- What is marked besides the pagination clause has characters behind its start. -/
theorem offset_lt_of_mem_append (h : DistinctWords tables) {token : Token}
    (htoken : token ∈ tables.flatMap (Template.tableTokens lowered) ++
      Template.derivedTokens lowered) : token.offset < byteLength lowered := by
  rcases List.mem_append.1 htoken with htoken | htoken
  · obtain ⟨table, htable, htoken⟩ := List.mem_flatMap.1 htoken
    obtain ⟨start, hstart, rfl⟩ := mem_tableTokens.1 htoken
    obtain ⟨before, after, htext, rfl, -, -⟩ := wordAt_of_mem_wordPositions hstart
    have hpos := byteLength_pos (isWord_foldCase (h.words table htable)).1
    rw [htext, byteLength_append, byteLength_append]
    simp only [Token.offset]
    omega
  · obtain ⟨front, back, htext, rfl⟩ := exists_of_mem_derivedTokens htoken
    have hpos : 0 < byteLength " from ".toList := by decide
    rw [htext, byteLength_append, byteLength_append]
    simp only [Token.offset]
    omega

/-- The select list does not end at the start of the pagination clause. -/
theorem offset_ne_of_mem_derivedTokens {token page : Token}
    (htoken : token ∈ Template.derivedTokens lowered)
    (hpage : page ∈ Template.paginationTokens lowered) : token.offset ≠ page.offset := by
  obtain ⟨front, back, htext, rfl⟩ := exists_of_mem_derivedTokens htoken
  obtain ⟨front', back', htext', rfl⟩ := exists_of_mem_paginationTokens hpage
  intro hoffset
  have hlength : byteLength (front' ++ [' ']) = byteLength front := by
    rw [byteLength_append]
    exact hoffset.symm
  -- One and the same character would be a space and the first letter of `limit`.
  have hcut : splitAtByte (byteLength front) lowered =
      some (front, ' ' :: ("from ".toList ++ back)) := by
    rw [splitAtByte_eq_some_iff, htext]
    simp
  have hcut' : splitAtByte (byteLength front) lowered =
      some (front' ++ [' '], 'l' :: ("imit ".toList ++ back')) := by
    rw [splitAtByte_eq_some_iff, htext', hlength]
    simp
  rw [hcut] at hcut'
  simp at hcut'

/-- What ends in front of the pagination clause starts in front of it. -/
theorem offset_lt_of_endsBefore (h : DistinctWords tables) {token page : Token}
    (htoken : token ∈ tables.flatMap (Template.tableTokens lowered) ++
      Template.derivedTokens lowered)
    (hpage : page ∈ Template.paginationTokens lowered) (hbefore : token.EndsBefore page) :
    token.offset < page.offset := by
  rcases List.mem_append.1 htoken with htoken | htoken
  · obtain ⟨table, htable, htoken⟩ := List.mem_flatMap.1 htoken
    obtain ⟨start, -, rfl⟩ := mem_tableTokens.1 htoken
    have hpos := byteLength_pos (isWord_foldCase (h.words table htable)).1
    simp only [Token.EndsBefore, Token.stop, Token.offset, Token.length] at hbefore ⊢
    omega
  · have hother := offset_ne_of_mem_derivedTokens htoken hpage
    simp only [Token.EndsBefore, Token.stop] at hbefore
    omega

/-- The clause reaches to the end of the text, so nothing is marked behind it. -/
theorem not_endsBefore_of_mem_paginationTokens {token page : Token}
    (hpage : page ∈ Template.paginationTokens lowered)
    (htoken : token.offset < byteLength lowered) : ¬page.EndsBefore token := by
  obtain ⟨front, back, htext, rfl⟩ := exists_of_mem_paginationTokens hpage
  have hlength := congrArg byteLength htext
  have hlimit : byteLength " limit ".toList = 7 := by decide
  simp only [byteLength_append, hlimit] at hlength
  simp only [Token.EndsBefore, Token.stop, Token.offset, Token.length] at htoken ⊢
  omega

/-- If no two tokens overlap, the pagination clause is last. -/
theorem pageLast_of_pairwise (h : DistinctWords tables)
    (hpairwise : (Template.scan text tables).tokens.Pairwise Token.EndsBefore) :
    (Template.scan text tables).PageLast := by
  intro page hpage hisPage token htoken hnot
  have hne : token ≠ page := by
    rintro rfl
    rw [hisPage] at hnot
    cases hnot
  have heither : token.EndsBefore page ∨ page.EndsBefore token := by
    have : Std.Symm fun a b : Token => a.EndsBefore b ∨ b.EndsBefore a := ⟨fun _ _ => Or.symm⟩
    exact (hpairwise.imp .inl : (Template.scan text tables).tokens.Pairwise
      fun a b => a.EndsBefore b ∨ b.EndsBefore a).forall htoken hpage hne
  rcases mem_scan_tokens_append.1 htoken with htoken | htoken
  · rcases mem_scan_tokens_append.1 hpage with hpage | hpage
    · rw [isPage_of_mem_append hpage] at hisPage
      cases hisPage
    · have hbefore := heither.resolve_right
        (not_endsBefore_of_mem_paginationTokens hpage (offset_lt_of_mem_append h htoken))
      exact offset_lt_of_endsBefore h htoken hpage hbefore
  · rw [isPage_of_mem_paginationTokens htoken] at hnot
    cases hnot

/-- With an actual table for every name, all tokens of a scan have their tables. -/
theorem names_of_mem_scan {s : Substitution}
    (hactual : ∀ table ∈ tables, (s.actual? table).isSome = true) {token : Token}
    (htoken : token ∈ (Template.scan text tables).tokens) : s.Names token := by
  intro logical hlogical
  rcases mem_scan_tokens.1 htoken with ⟨table, htable, htoken⟩ | htoken | htoken
  · obtain ⟨_, _, rfl⟩ := mem_tableTokens.1 htoken
    cases hlogical
    exact Substitution.actual?_isSome_iff.1 (hactual _ htable)
  · obtain ⟨_, _, _, rfl⟩ := exists_of_mem_derivedTokens htoken
    cases hlogical
  · obtain ⟨_, _, _, rfl⟩ := exists_of_mem_paginationTokens htoken
    cases hlogical

theorem exists_render_scan_iff {s : Substitution}
    (hactual : ∀ table ∈ tables, (s.actual? table).isSome = true) :
    (∃ sql, (Template.scan text tables).render s = .ok sql) ↔
      (Template.scan text tables).tokens.Pairwise Token.EndsBefore := by
  constructor
  · rintro ⟨sql, hsql⟩
    exact (Template.renderFrom_start_iff.1 (Template.render_eq_ok.1 hsql)).1.chain.pairwise
  · intro hpairwise
    have hplace : (Template.scan text tables).InPlace :=
      ⟨hpairwise.isChain, fun token htoken => inside_of_mem_scan htoken⟩
    have hfrom := Template.renderFrom_start_iff.2
      ⟨hplace, fun token htoken => names_of_mem_scan hactual htoken, rfl⟩
    exact ⟨String.ofList _, Template.render_eq_ok.2 (by rw [String.toList_ofList]; exact hfrom)⟩

/-- A scan marks places in the order of their positions, inside of the text and on boundaries of
characters, and names and the end of the select list do not overlap.  The template can be rendered
with an actual table for every name exactly when the pagination clause is last; otherwise some
token is out of place. -/
theorem Template.scan_renders_iff {s : Substitution} (h : DistinctWords tables)
    (hactual : ∀ table ∈ tables, (s.actual? table).isSome = true) :
    (scan text tables).tokens.Pairwise (fun token next => token.offset ≤ next.offset) ∧
    (∀ token ∈ (scan text tables).tokens, token.Inside text.toList) ∧
    ((scan text tables).tokens.filter fun token => !token.isPage).Pairwise Token.EndsBefore ∧
    ((scan text tables).tokens.Pairwise Token.EndsBefore ↔ (scan text tables).PageLast) ∧
    ((∃ sql, (scan text tables).render s = .ok sql) ↔ (scan text tables).PageLast) ∧
    (¬(scan text tables).PageLast → ∃ token ∈ (scan text tables).tokens,
      (scan text tables).render s = .error (.malformedTemplate token text)) := by
  have hpairwise : (scan text tables).tokens.Pairwise Token.EndsBefore ↔
      (scan text tables).PageLast :=
    ⟨pageLast_of_pairwise h, pairwise_scan_of_pageLast h⟩
  have hrender : (∃ sql, (scan text tables).render s = .ok sql) ↔ (scan text tables).PageLast :=
    (exists_render_scan_iff hactual).trans hpairwise
  refine ⟨pairwise_scan_tokens text tables, fun token htoken => inside_of_mem_scan htoken,
    pairwise_filter_scan h, hpairwise, hrender, ?_⟩
  intro hnot
  cases hresult : (scan text tables).render s with
  | ok sql => exact absurd (hrender.1 ⟨sql, hresult⟩) hnot
  | error cause =>
    rcases render_error hresult with ⟨token, htoken, rfl⟩ | ⟨token, htoken, hother⟩
    · exact ⟨token, htoken, rfl⟩
    · exact absurd (names_of_mem_scan hactual htoken) hother

/-- The first shard's tables of orders and users. -/
def firstTables : Substitution where
  tables := [("t_order", "t_order_0"), ("T_User", "t_user_0")]
  derived := []
  page := .keep

theorem distinctWords_shop : DistinctWords ["t_order", "t_user"] where
  words := by decide
  distinct := by decide

/-- With its pagination clause at the end, a join is rendered. -/
theorem scan_renders_iff_join :
    ∃ sql, (Template.scan "SELECT t_user.id FROM t_order, T_USER LIMIT 5"
      ["t_order", "t_user"]).render firstTables = .ok sql := by
  obtain ⟨-, -, -, -, hiff, -⟩ := @Template.scan_renders_iff
    "SELECT t_user.id FROM t_order, T_USER LIMIT 5" ["t_order", "t_user"] firstTables
    distinctWords_shop (by decide)
  have htokens : (Template.scan "SELECT t_user.id FROM t_order, T_USER LIMIT 5"
      ["t_order", "t_user"]).tokens =
      [.table 7 6 "t_user", .derived 16, .table 22 7 "t_order", .table 31 6 "t_user",
        .pagination 38 7] := by
    rw [Template.scan_eq_insertion]
    decide +kernel
  refine hiff.2 ?_
  rw [Template.PageLast, htokens]
  decide

/-- With a clause inside of a subquery, the table that is joined to the subquery is marked behind
the clause, and the query cannot be rendered. -/
theorem scan_misfits_subquery :
    DistinctWords ["t_order", "t_user"] ∧
    (∀ table ∈ ["t_order", "t_user"], (firstTables.actual? table).isSome = true) ∧
    (Template.scan
        "SELECT id FROM (SELECT id FROM t_order LIMIT 5) o JOIN t_user ON o.id = t_user.id"
        ["t_order", "t_user"]).render firstTables =
      .error (.malformedTemplate (.table 55 6 "t_user")
        "SELECT id FROM (SELECT id FROM t_order LIMIT 5) o JOIN t_user ON o.id = t_user.id") := by
  refine ⟨distinctWords_shop, by decide, ?_⟩
  rw [Template.scan_eq_insertion]
  rfl

end Scan

end Sharding.Sql
