import Sharding.Proofs.Sql.Naming
import Sharding.Proofs.Sql.Slices

/-!
# Whole words in a text

The name of a table is marked wherever it stands as a whole word, in any case of ASCII letters.
`StandsAt` says so of a text as it is written; the search goes through the lowered text, where it
skips every match as a whole, whether it is a word of its own or not.

* Lowering keeps the length and the class of every character, so `WordAt` holds of a lowered text
  at the positions at which it holds of the text itself (`wordAt_map_toLower`).
* The search marks words only (`wordAt_of_mem_wordPositions`).  It misses none if the needle is a
  word: a match that overlaps an earlier one has a character of that one in front
  (`mem_wordPositions_iff`).
* `SearchEnds` is the search as a loop over a position, which looks for the next match and goes on
  behind it.  For a needle that is not empty the loop ends, and with the positions of
  `wordPositions` (`searchEnds_iff`).

`Template.scan_marks_words` puts these together for the tokens of one table.
-/

namespace Sharding

/-! ## Lowered characters -/

theorem toLower_cases (c : Char) :
    c.toLower = c ∨ (65 ≤ c.toNat ∧ c.toNat ≤ 90) ∧ c.toLower.toNat = c.toNat + 32 := by
  delta Char.toLower
  split
  next h =>
    have hcapital : 65 ≤ c.toNat ∧ c.toNat ≤ 90 := h
    refine .inr ⟨hcapital, ?_⟩
    show (c.val + 32).toNat = c.toNat + 32
    rw [UInt32.toNat_add]
    show (c.toNat + 32) % 4294967296 = c.toNat + 32
    omega
  next => exact .inl rfl

theorem utf8Size_eq_one {c : Char} (h : c.toNat ≤ 127) : c.utf8Size = 1 :=
  if_pos h

@[simp] theorem utf8Size_toLower (c : Char) : c.toLower.utf8Size = c.utf8Size := by
  obtain h | ⟨hcapital, hlower⟩ := toLower_cases c
  · rw [h]
  · rw [utf8Size_eq_one (by omega), utf8Size_eq_one (by omega)]

@[simp] theorem isWordChar_toLower (c : Char) : isWordChar c.toLower = isWordChar c := by
  obtain h | ⟨hcapital, hlower⟩ := toLower_cases c
  · rw [h]
  · rw [isWordChar_iff.2 (.inl hcapital), isWordChar_iff.2 (.inr (.inl (by omega)))]

namespace Sql

@[simp] theorem byteLength_map_toLower (cs : List Char) :
    byteLength (cs.map Char.toLower) = byteLength cs := by
  induction cs with
  | nil => rfl
  | cons c cs ih => simp [ih]

@[simp] theorem endsWord_map_toLower (neighbour : Option Char) :
    endsWord (neighbour.map Char.toLower) = endsWord neighbour := by
  cases neighbour <;> simp [endsWord]

theorem endsWord_some {c : Char} : endsWord (some c) = true ↔ isWordChar c = false := by
  simp [endsWord]

/-! ## Words -/

/-- At the position `n` of a text stands `word`, with no character of a word next to it. -/
def WordAt (word text : List Char) (n : Nat) : Prop :=
  ∃ before after, text = before ++ word ++ after ∧ byteLength before = n ∧
    endsWord before.getLast? = true ∧ endsWord after.head? = true

/-- At the position `n` of a text stands a name as a whole word, in some case of ASCII letters. -/
def StandsAt (name : String) (text : List Char) (n : Nat) : Prop :=
  ∃ word, WordAt word text n ∧ word.map Char.toLower = foldCase name

theorem wordAt_map_toLower {needle text : List Char} {n : Nat} :
    WordAt needle (text.map Char.toLower) n ↔
      ∃ word, WordAt word text n ∧ word.map Char.toLower = needle := by
  constructor
  · rintro ⟨before, after, htext, hn, hbefore, hafter⟩
    obtain ⟨front, after', rfl, hfront, rfl⟩ := List.map_eq_append_iff.1 htext
    obtain ⟨before', word, rfl, rfl, rfl⟩ := List.map_eq_append_iff.1 hfront
    rw [List.getLast?_map, endsWord_map_toLower] at hbefore
    rw [List.head?_map, endsWord_map_toLower] at hafter
    rw [byteLength_map_toLower] at hn
    exact ⟨word, ⟨before', after', rfl, hn, hbefore, hafter⟩, rfl⟩
  · rintro ⟨word, ⟨before, after, rfl, hn, hbefore, hafter⟩, rfl⟩
    refine ⟨before.map Char.toLower, after.map Char.toLower, by simp, by simpa using hn, ?_, ?_⟩
    · rwa [List.getLast?_map, endsWord_map_toLower]
    · rwa [List.head?_map, endsWord_map_toLower]

theorem isWord_foldCase {name : String} (h : isWord name = true) :
    foldCase name ≠ [] ∧ ∀ c ∈ foldCase name, isWordChar c = true := by
  obtain ⟨hne, hall⟩ := isWord_iff.1 h
  refine ⟨by simpa [foldCase] using hne, ?_⟩
  intro c hc
  obtain ⟨c', hc', rfl⟩ := List.mem_map.1 hc
  rw [isWordChar_toLower]
  exact hall c' hc'

/-! ## The search -/

/-- Of the character in front of a text and its own characters, the last one. -/
theorem getLast?_cons_or (c : Char) (front : List Char) (before : Option Char) :
    (c :: front).getLast?.or before = front.getLast?.or (some c) := by
  rw [List.getLast?_cons]
  cases front.getLast? <;> rfl

section Search

variable {needle : List Char}

/-- The search marks words only. -/
theorem exists_of_mem_wordPositionsFrom {skip offset n : Nat} {before : Option Char}
    {text : List Char} (h : n ∈ wordPositionsFrom needle skip offset before text) :
    ∃ front back, text = front ++ needle ++ back ∧ n = offset + byteLength front ∧
      endsWord (front.getLast?.or before) = true ∧ endsWord back.head? = true := by
  induction text generalizing skip offset before with
  | nil => cases h
  | cons c text ih =>
    -- A position behind the first character is one in the rest of the text.
    have hlater : ∀ {skip}, n ∈ wordPositionsFrom needle skip (offset + c.utf8Size) (some c) text →
        ∃ front back, c :: text = front ++ needle ++ back ∧ n = offset + byteLength front ∧
          endsWord (front.getLast?.or before) = true ∧ endsWord back.head? = true := by
      intro skip h
      obtain ⟨front, back, rfl, rfl, hfront, hback⟩ := ih h
      refine ⟨c :: front, back, rfl, ?_, ?_, hback⟩
      · rw [byteLength_cons, Nat.add_assoc]
      · rwa [getLast?_cons_or]
    cases skip with
    | succ skip => exact hlater h
    | zero =>
      rw [wordPositionsFrom] at h
      split at h
      next hmatch =>
        obtain ⟨back, hback⟩ := List.isPrefixOf_iff_prefix.1 hmatch
        dsimp only at h
        split at h
        next halone =>
          rcases List.mem_cons.1 h with rfl | h
          · rw [← hback, List.drop_left, Bool.and_eq_true] at halone
            exact ⟨[], back, hback.symm, rfl, halone⟩
          · exact hlater h
        next => exact hlater h
      next => exact hlater h

/-- The search misses no word.  What is skipped are characters of a word, behind one. -/
theorem mem_wordPositionsFrom {skip offset : Nat} {before : Option Char} {front back : List Char}
    (hne : needle ≠ []) (hword : ∀ c ∈ needle, isWordChar c = true)
    (hskip : 0 < skip → endsWord before = false ∧
      ∀ c ∈ (front ++ needle ++ back).take (skip - 1), isWordChar c = true)
    (hfront : endsWord (front.getLast?.or before) = true) (hback : endsWord back.head? = true) :
    offset + byteLength front ∈
      wordPositionsFrom needle skip offset before (front ++ needle ++ back) := by
  induction front generalizing skip offset before with
  | nil =>
    have hzero : skip = 0 := by
      by_contra hpos
      rw [List.getLast?_nil, Option.none_or, (hskip (by omega)).1] at hfront
      cases hfront
    subst hzero
    obtain ⟨c, rest, rfl⟩ := List.exists_cons_of_ne_nil hne
    have hmatch : (c :: rest).isPrefixOf (c :: rest ++ back) = true :=
      List.isPrefixOf_iff_prefix.2 (List.prefix_append _ _)
    have hdrop : (c :: (rest ++ back)).drop (c :: rest).length = back := by
      simp
    rw [List.nil_append, List.cons_append, wordPositionsFrom, ← List.cons_append, if_pos hmatch,
      List.cons_append, hdrop, hback]
    rw [List.getLast?_nil, Option.none_or] at hfront
    simp [hfront]
  | cons c front ih =>
    rw [getLast?_cons_or] at hfront
    have hoffset : offset + byteLength (c :: front) =
        offset + c.utf8Size + byteLength front := by
      rw [byteLength_cons, Nat.add_assoc]
    rw [List.cons_append, List.cons_append, hoffset]
    cases skip with
    | succ skip =>
      refine ih ?_ hfront
      intro hpos
      obtain ⟨-, htake⟩ := hskip (Nat.succ_pos skip)
      rw [Nat.add_sub_cancel, List.cons_append, List.cons_append] at htake
      obtain ⟨skip, rfl⟩ := Nat.exists_eq_succ_of_ne_zero (by omega : skip ≠ 0)
      rw [List.take_succ_cons, List.forall_mem_cons] at htake
      exact ⟨by simp [endsWord, htake.1], htake.2⟩
    | zero =>
      have hstep : ∀ skip, (0 < skip → endsWord (some c) = false ∧
          ∀ c ∈ (front ++ needle ++ back).take (skip - 1), isWordChar c = true) →
          offset + c.utf8Size + byteLength front ∈ wordPositionsFrom needle skip
            (offset + c.utf8Size) (some c) (front ++ needle ++ back) :=
        fun _ hskip => ih hskip hfront
      rw [wordPositionsFrom]
      split
      next hmatch =>
        -- The skipped characters are those of the match behind its first one.
        have hlater := hstep (needle.length - 1) (by
          intro hpos
          obtain ⟨tail, htail⟩ := List.isPrefixOf_iff_prefix.1 hmatch
          obtain ⟨d, rest, rfl⟩ := List.exists_cons_of_ne_nil hne
          rw [List.cons_append] at htail
          obtain ⟨rfl, hrest⟩ := List.cons.inj htail
          refine ⟨by simp [endsWord, hword d List.mem_cons_self], ?_⟩
          intro e he
          rw [← hrest, List.take_append_of_le_length (by simp)] at he
          exact hword e (List.mem_cons_of_mem _ (List.mem_of_mem_take he)))
        dsimp only
        split
        · exact List.mem_cons_of_mem _ hlater
        · exact hlater
      next => exact hstep 0 (fun hpos => absurd hpos (Nat.lt_irrefl 0))

theorem le_of_mem_wordPositionsFrom {skip offset n : Nat} {before : Option Char}
    {text : List Char} (h : n ∈ wordPositionsFrom needle skip offset before text) :
    offset ≤ n := by
  obtain ⟨front, back, -, rfl, -⟩ := exists_of_mem_wordPositionsFrom h
  exact Nat.le_add_right _ _

theorem pairwise_wordPositionsFrom (skip offset : Nat) (before : Option Char) (text : List Char) :
    (wordPositionsFrom needle skip offset before text).Pairwise (· < ·) := by
  induction text generalizing skip offset before with
  | nil => exact List.Pairwise.nil
  | cons c text ih =>
    have hpos := c.utf8Size_pos
    cases skip with
    | succ skip => exact ih ..
    | zero =>
      rw [wordPositionsFrom]
      split
      · dsimp only
        split
        · refine List.pairwise_cons.2 ⟨fun n hn => ?_, ih ..⟩
          have hle := le_of_mem_wordPositionsFrom hn
          omega
        · exact ih ..
      · exact ih ..

theorem wordAt_of_mem_wordPositions {text : List Char} {n : Nat}
    (h : n ∈ wordPositions needle text) : WordAt needle text n := by
  obtain ⟨before, after, htext, hn, hbefore, hafter⟩ := exists_of_mem_wordPositionsFrom h
  rw [Option.or_none] at hbefore
  exact ⟨before, after, htext, by omega, hbefore, hafter⟩

theorem mem_wordPositions_iff {text : List Char} {n : Nat} (hne : needle ≠ [])
    (hword : ∀ c ∈ needle, isWordChar c = true) :
    n ∈ wordPositions needle text ↔ WordAt needle text n := by
  refine ⟨wordAt_of_mem_wordPositions, ?_⟩
  rintro ⟨before, after, rfl, rfl, hbefore, hafter⟩
  have hmem : 0 + byteLength before ∈
      wordPositionsFrom needle 0 0 none (before ++ needle ++ after) :=
    mem_wordPositionsFrom hne hword (fun hpos => absurd hpos (Nat.lt_irrefl 0))
      (by rwa [Option.or_none]) hafter
  rwa [Nat.zero_add] at hmem

end Search

/-! ## The search as a loop -/

/-- No character of a word stands next to the stretch of a text between two positions. -/
def aloneAt (text : List Char) (start stop : Nat) : Bool :=
  ((splitAtByte start text).any fun (front, _) => endsWord front.getLast?) &&
    (splitAtByte stop text).any fun (_, back) => endsWord back.head?

/-- The loop that searches a text for a needle, from a position on, ends with the positions at
which it found the needle alone.  Each round looks for the first match and goes on behind it. -/
inductive SearchEnds (needle text : List Char) : Nat → List Nat → Prop
  /-- There is no match any more. -/
  | done {cursor : Nat} {front rest : List Char} :
      splitAtByte cursor text = some (front, rest) → (positions needle rest).head? = none →
      SearchEnds needle text cursor []
  /-- The first match is `ahead` bytes away. -/
  | round {cursor ahead : Nat} {front rest : List Char} {found : List Nat} :
      splitAtByte cursor text = some (front, rest) →
      (positions needle rest).head? = some ahead →
      SearchEnds needle text (cursor + ahead + byteLength needle) found →
      SearchEnds needle text cursor
        (if aloneAt text (cursor + ahead) (cursor + ahead + byteLength needle) then
          (cursor + ahead) :: found
        else found)

section Loop

variable {needle : List Char}

theorem SearchEnds.unique {text : List Char} {cursor : Nat} {found found' : List Nat}
    (h : SearchEnds needle text cursor found) (h' : SearchEnds needle text cursor found') :
    found = found' := by
  induction h generalizing found' with
  | done hcut hnone =>
    cases h' with
    | done => rfl
    | round hcut' hfirst' =>
      rw [hcut] at hcut'
      cases hcut'
      rw [hnone] at hfirst'
      cases hfirst'
  | round hcut hfirst _ ih =>
    cases h' with
    | done hcut' hnone' =>
      rw [hcut] at hcut'
      cases hcut'
      rw [hfirst] at hnone'
      cases hnone'
    | round hcut' hfirst' hlater' =>
      rw [hcut] at hcut'
      cases hcut'
      rw [hfirst] at hfirst'
      cases hfirst'
      rw [ih hlater']

/-- What is skipped adds no position. -/
theorem wordPositionsFrom_skip (offset : Nat) (before : Option Char) (skipped rest : List Char) :
    wordPositionsFrom needle skipped.length offset before (skipped ++ rest) =
      wordPositionsFrom needle 0 (offset + byteLength skipped) (skipped.getLast?.or before)
        rest := by
  induction skipped generalizing offset before with
  | nil => rfl
  | cons c skipped ih =>
    rw [List.length_cons, List.cons_append, wordPositionsFrom, ih, byteLength_cons, Nat.add_assoc,
      getLast?_cons_or]

theorem positionsFrom_eq (offset : Nat) (text : List Char) :
    positionsFrom needle offset text = (positions needle text).map (· + offset) := by
  have hshift : ∀ start, positionsFrom needle (start + offset) text =
      (positionsFrom needle start text).map (· + offset) := by
    induction text with
    | nil => exact fun _ => rfl
    | cons c text ih =>
      intro start
      rw [positionsFrom, positionsFrom, Nat.add_right_comm, ih]
      split <;> rfl
  simpa [positions] using hshift 0

/-- Without a match there is no word. -/
theorem wordPositionsFrom_of_none {offset : Nat} {text : List Char} (before : Option Char)
    (h : (positionsFrom needle offset text).head? = none) :
    wordPositionsFrom needle 0 offset before text = [] := by
  induction text generalizing offset before with
  | nil => rfl
  | cons c text ih =>
    rw [positionsFrom] at h
    split at h
    next => cases h
    next hmatch =>
      rw [wordPositionsFrom, if_neg hmatch]
      exact ih _ h

/-- The first match is looked at, and the search goes on behind it. -/
theorem wordPositionsFrom_of_first {offset start : Nat} {text : List Char} (before : Option Char)
    (hne : needle ≠ []) (h : (positionsFrom needle offset text).head? = some start) :
    ∃ front back, text = front ++ needle ++ back ∧ start = offset + byteLength front ∧
      wordPositionsFrom needle 0 offset before text =
        if endsWord (front.getLast?.or before) && endsWord back.head? then
          start :: wordPositionsFrom needle 0 (start + byteLength needle) needle.getLast? back
        else wordPositionsFrom needle 0 (start + byteLength needle) needle.getLast? back := by
  induction text generalizing offset before with
  | nil => cases h
  | cons c text ih =>
    rw [positionsFrom] at h
    split at h
    next hmatch =>
      have hstart : offset = start := Option.some.inj h
      subst hstart
      obtain ⟨back, hback⟩ := List.isPrefixOf_iff_prefix.1 hmatch
      obtain ⟨d, tail, rfl⟩ := List.exists_cons_of_ne_nil hne
      rw [List.cons_append] at hback
      obtain ⟨rfl, rfl⟩ := List.cons.inj hback
      refine ⟨[], back, rfl, rfl, ?_⟩
      have hdrop : (d :: (tail ++ back)).drop (d :: tail).length = back := by
        simp
      have hlater : wordPositionsFrom (d :: tail) ((d :: tail).length - 1) (offset + d.utf8Size)
          (some d) (tail ++ back) =
          wordPositionsFrom (d :: tail) 0 (offset + byteLength (d :: tail))
            (d :: tail).getLast? back := by
        rw [List.length_cons, Nat.add_sub_cancel, wordPositionsFrom_skip, byteLength_cons,
          Nat.add_assoc, ← getLast?_cons_or d tail none, Option.or_none]
      rw [wordPositionsFrom, if_pos hmatch, hdrop, hlater]
      rfl
    next hmatch =>
      obtain ⟨front, back, rfl, rfl, hrest⟩ := ih (some c) h
      refine ⟨c :: front, back, rfl, ?_, ?_⟩
      · rw [byteLength_cons, Nat.add_assoc]
      · rw [wordPositionsFrom, if_neg hmatch, hrest, getLast?_cons_or]

theorem aloneAt_append (front word back : List Char) :
    aloneAt (front ++ word ++ back) (byteLength front) (byteLength front + byteLength word) =
      (endsWord front.getLast? && endsWord back.head?) := by
  have hstart : splitAtByte (byteLength front) (front ++ word ++ back) =
      some (front, word ++ back) :=
    splitAtByte_eq_some_iff.2 ⟨List.append_assoc _ _ _, rfl⟩
  have hstop : splitAtByte (byteLength front + byteLength word) (front ++ word ++ back) =
      some (front ++ word, back) :=
    splitAtByte_eq_some_iff.2 ⟨rfl, byteLength_append _ _⟩
  rw [aloneAt, hstart, hstop]
  rfl

/-- From a place where the text can be cut, the loop ends with the words behind the place. -/
theorem searchEnds_append (hne : needle ≠ []) (front rest : List Char) :
    SearchEnds needle (front ++ rest) (byteLength front)
      (wordPositionsFrom needle 0 (byteLength front) front.getLast? rest) := by
  induction hlength : rest.length using Nat.strongRecOn generalizing front rest with
  | ind length ih =>
  have hcut : splitAtByte (byteLength front) (front ++ rest) = some (front, rest) :=
    splitAtByte_eq_some_iff.2 ⟨rfl, rfl⟩
  have hfirst : (positionsFrom needle (byteLength front) rest).head? =
      (positions needle rest).head?.map (· + byteLength front) := by
    rw [positionsFrom_eq, List.head?_map]
  cases hahead : (positions needle rest).head? with
  | none =>
    rw [hahead] at hfirst
    rw [wordPositionsFrom_of_none _ hfirst]
    exact .done hcut hahead
  | some ahead =>
    rw [hahead, Option.map_some] at hfirst
    obtain ⟨gap, back, rfl, hstart, hwords⟩ :=
      wordPositionsFrom_of_first front.getLast? hne hfirst
    have hgap : byteLength front + ahead = byteLength (front ++ gap) := by
      rw [byteLength_append]
      omega
    have htext : front ++ (gap ++ needle ++ back) = front ++ gap ++ needle ++ back := by
      simp only [List.append_assoc]
    -- Behind the match the search goes on as one of its own.
    have hshorter : back.length < length := by
      have hpos := List.length_pos_iff.2 hne
      simp only [List.length_append] at hlength
      omega
    have hlater := ih back.length hshorter (front ++ gap ++ needle) back rfl
    rw [← htext, byteLength_append, ← hgap, List.getLast?_append_of_ne_nil _ hne] at hlater
    have hround := SearchEnds.round hcut hahead hlater
    rw [htext, hgap, aloneAt_append, List.getLast?_append, ← hgap, Nat.add_comm _ ahead] at hround
    rw [hwords, htext]
    exact hround

/-- The loop ends, and always with the same positions. -/
theorem searchEnds_iff {text : List Char} {found : List Nat} (hne : needle ≠ []) :
    SearchEnds needle text 0 found ↔ found = wordPositions needle text := by
  have hends : SearchEnds needle text 0 (wordPositions needle text) :=
    searchEnds_append hne [] text
  constructor
  · intro h
    exact h.unique hends
  · rintro rfl
    exact hends

end Loop

/-! ## The tokens of a table -/

section Scan

variable {text : String} {tables : List String} {name : String}

theorem mem_wordPositions_foldCase {n : Nat} (hname : isWord name = true) :
    n ∈ wordPositions (foldCase name) (foldCase text) ↔ StandsAt name text.toList n := by
  obtain ⟨hne, hword⟩ := isWord_foldCase hname
  rw [mem_wordPositions_iff hne hword]
  exact wordAt_map_toLower

/-- A token is the name of a table, in some case of ASCII letters. -/
def Token.isNamed (name : String) (token : Token) : Bool :=
  token.table?.any (sameName name)

/-- The tokens that a scan has for one table, before they are sorted. -/
theorem filter_tokens (hmem : name ∈ tables) (honce : tables.countP (sameName name) = 1)
    (lowered : List Char) :
    (tables.flatMap (Template.tableTokens lowered) ++ Template.derivedTokens lowered ++
        Template.paginationTokens lowered).filter (Token.isNamed name) =
      Template.tableTokens lowered name := by
  have hderived : (Template.derivedTokens lowered).filter (Token.isNamed name) = [] := by
    unfold Template.derivedTokens
    split
    · cases (positions " from ".toList lowered).head? <;> rfl
    · rfl
  have hpage : (Template.paginationTokens lowered).filter (Token.isNamed name) = [] := by
    unfold Template.paginationTokens
    cases (positions " limit ".toList lowered).getLast? <;> rfl
  have htokens : ∀ table, (Template.tableTokens lowered table).filter (Token.isNamed name) =
      if sameName name table then Template.tableTokens lowered table else [] := by
    intro table
    unfold Template.tableTokens
    split
    next hsame => simp [Token.isNamed, Token.table?, hsame]
    next hother => simp [Token.isNamed, Token.table?, hother]
  obtain ⟨before, after, rfl⟩ := List.append_of_mem hmem
  rw [List.countP_append, List.countP_cons_of_pos (sameName_refl name)] at honce
  have hnone : ∀ others : List String, others.countP (sameName name) = 0 →
      others.flatMap (fun table => (Template.tableTokens lowered table).filter
        (Token.isNamed name)) = [] := by
    intro others hcount
    refine List.flatMap_eq_nil_iff.2 fun table htable => ?_
    rw [htokens, if_neg (List.countP_eq_zero.1 hcount table htable)]
  rw [List.filter_append, List.filter_append, hderived, hpage, List.append_nil, List.append_nil,
    List.filter_flatMap, List.flatMap_append, List.flatMap_cons, hnone before (by omega),
    hnone after (by omega), htokens, if_pos (sameName_refl name), List.nil_append, List.append_nil]

theorem pairwise_scan_tokens (text : String) (tables : List String) :
    (Template.scan text tables).tokens.Pairwise fun token next => token.offset ≤ next.offset := by
  have hsorted : (Template.scan text tables).tokens.Pairwise
      fun token next => decide (token.offset ≤ next.offset) = true :=
    List.pairwise_mergeSort (by simp only [decide_eq_true_eq]; omega)
      (by simp only [Bool.or_eq_true, decide_eq_true_eq]; omega) _
  exact hsorted.imp of_decide_eq_true

/-- Scanning a text marks the name of a table, if it is a word and listed once, exactly where it
stands as a whole word, each place once.  The loop that searches for the name ends with these
places. -/
theorem Template.scan_marks_words (hname : isWord name = true) (hmem : name ∈ tables)
    (honce : tables.countP (sameName name) = 1) :
    ∃ starts : List Nat,
      (∀ found, SearchEnds (foldCase name) (foldCase text) 0 found ↔ found = starts) ∧
      starts.Pairwise (· < ·) ∧ (∀ n, n ∈ starts ↔ StandsAt name text.toList n) ∧
      (scan text tables).tokens.filter (Token.isNamed name) =
        starts.map fun start => .table start (byteLength name.toList) name := by
  have hne := (isWord_foldCase hname).1
  have hincreasing : (wordPositions (foldCase name) (foldCase text)).Pairwise (· < ·) :=
    pairwise_wordPositionsFrom ..
  refine ⟨wordPositions (foldCase name) (foldCase text), fun _ => searchEnds_iff hne,
    hincreasing, fun _ => mem_wordPositions_foldCase hname, ?_⟩
  have hlength : byteLength (foldCase name) = byteLength name.toList :=
    byteLength_map_toLower _
  have htokens : tableTokens (foldCase text) name =
      (wordPositions (foldCase name) (foldCase text)).map
        fun start => .table start (byteLength name.toList) name := by
    rw [tableTokens, hlength]
  -- Sorting moves no token of one table past another, since they stand at different places.
  have hperm := (List.mergeSort_perm
    (tables.flatMap (tableTokens (foldCase text)) ++ derivedTokens (foldCase text) ++
      paginationTokens (foldCase text)) fun a b : Token => a.offset ≤ b.offset).filter
        (Token.isNamed name)
  rw [filter_tokens hmem honce, htokens] at hperm
  have hsorted := (pairwise_scan_tokens text tables).filter (Token.isNamed name)
  refine List.Perm.eq_of_pairwise ?_ hsorted ?_ hperm
  · intro a b ha hb hab hba
    obtain ⟨start, -, rfl⟩ := List.mem_map.1 (hperm.mem_iff.1 ha)
    obtain ⟨start', -, rfl⟩ := List.mem_map.1 hb
    have hsame : start = start' := Nat.le_antisymm hab hba
    rw [hsame]
  · exact List.pairwise_map.2 (hincreasing.imp Nat.le_of_lt)

/-- The name `t_order` stands in this text three times, twice as a whole word. -/
theorem scan_marks_words_order :
    (Template.scan "SELECT é, T_Order.id FROM t_order_item, t_order" ["t_item", "t_order"]
        ).tokens.filter (Token.isNamed "t_order") =
      [.table 11 7 "t_order", .table 41 7 "t_order"] := by
  obtain ⟨starts, hends, -, -, htokens⟩ := @Template.scan_marks_words
    "SELECT é, T_Order.id FROM t_order_item, t_order" ["t_item", "t_order"] "t_order"
    (by decide) (by decide) (by decide)
  have hstarts : [11, 41] = starts :=
    (hends _).1 ((searchEnds_iff (by decide)).2 (by decide))
  rw [htokens, ← hstarts]
  rfl

end Scan

end Sql

end Sharding
