import Mathlib.Data.List.TakeDrop
import Sharding.Proofs.Datum.DecimalText
import Sharding.Proofs.Toml.Unique

/-!
# Written documents are read back

A `Written` document has fields and sections of fields, in lines of their own.  The values are
natural numbers and booleans, and the keys are written without quotes.  Such a document is read as
what it was written for (`document_written`), as long as its numbers have 63 bits and no key of a
table is given twice.

A number is tried as a boolean, as a date, as a time and as a float before it is read as an integer.
Its digits end with the line, while those of a date or a time end with a hyphen or a colon
(`digits_append_inj`), so only the last of these readers takes it.
-/

namespace Sharding.Toml

/-- A value that is written on a line. -/
inductive Plain where
  | integer (n : Nat)
  | boolean (b : Bool)

namespace Plain

def value : Plain → Value
  | integer n => .integer n
  | boolean b => .boolean b

def chars : Plain → List Char
  | integer n => decimalDigits n
  | boolean true => ['t', 'r', 'u', 'e']
  | boolean false => ['f', 'a', 'l', 's', 'e']

/-- Integers have 64 bits, one of which is for the sign. -/
def Fits : Plain → Prop
  | integer n => n < 9223372036854775808
  | boolean _ => True

end Plain

/-! ## Numbers -/

variable {c : Char} {cs ds es rest xs ys : List Char}

/-- The end of some digits can be told from what stands behind them. -/
theorem digits_append_inj {x y : Char} (hds : ∀ c ∈ ds, c.isDigit = true)
    (hes : ∀ c ∈ es, c.isDigit = true) (hx : x.isDigit = false) (hy : y.isDigit = false)
    (h : ds ++ x :: xs = es ++ y :: ys) : ds = es ∧ x = y ∧ xs = ys := by
  induction ds generalizing es with
  | nil =>
    cases es with
    | nil => exact ⟨rfl, List.cons.inj h⟩
    | cons e es =>
      obtain ⟨rfl, -⟩ := List.cons.inj h
      rw [hes x List.mem_cons_self] at hx
      cases hx
  | cons d ds ih =>
    cases es with
    | nil =>
      obtain ⟨rfl, -⟩ := List.cons.inj h
      rw [hds d List.mem_cons_self] at hy
      cases hy
    | cons e es =>
      obtain ⟨rfl, htail⟩ := List.cons.inj h
      obtain ⟨rfl, hrest⟩ := ih (List.forall_mem_cons.1 hds).2 (List.forall_mem_cons.1 hes).2 htail
      exact ⟨rfl, hrest⟩

theorem digit_ten (c : Char) : digit? 10 c = if c.isDigit then some (c.toNat - 48) else none := by
  have hdigit : ('0' ≤ c ∧ c ≤ '9') ↔ c.isDigit = true := by
    simp [Char.isDigit, Char.le_def]
  unfold digit?
  simp only [hdigit]
  by_cases hc : c.isDigit = true
  · have hhigh : c.toNat ≤ 57 := (Char.isDigit_iff_toNat.1 hc).2
    rw [if_pos hc, if_pos hc, if_pos (by omega)]
  · rw [if_neg hc, if_neg hc]
    refine if_neg ?_
    -- letters stand for ten and more
    split
    · rename_i hletter
      have hlow : 'a'.toNat ≤ c.toNat := hletter.1
      have ha : 'a'.toNat = 97 := rfl
      omega
    · split
      · rename_i hletter
        have hlow : 'A'.toNat ≤ c.toNat := hletter.1
        have ha : 'A'.toNat = 65 := rfl
        omega
      · omega

theorem isDigit_of_digit {n : Nat} (h : digit? 10 c = some n) : c.isDigit = true := by
  rw [digit_ten] at h
  split at h
  · assumption
  · cases h

theorem digitsValue_of_isDigit (h : ∀ c ∈ ds, c.isDigit = true) :
    digitsValue? 10 ds = some (digitsValue ds) := by
  have hfrom : ∀ n, ds.foldlM (fun n c => (digit? 10 c).map (n * 10 + ·)) n =
      some (Nat.ofDigitChars 10 ds n) := by
    induction ds with
    | nil => exact fun n => rfl
    | cons d ds ih =>
      obtain ⟨hd, hds⟩ := List.forall_mem_cons.1 h
      intro n
      rw [List.foldlM_cons, digit_ten, if_pos hd, Nat.ofDigitChars_cons, Nat.mul_comm 10 n]
      exact ih hds _
  exact hfrom 0

theorem isDigit_of_digitsValue {n : Nat} (h : digitsValue? 10 ds = some n) :
    ∀ c ∈ ds, c.isDigit = true := by
  have hfrom : ∀ m, ds.foldlM (fun n c => (digit? 10 c).map (n * 10 + ·)) m = some n →
      ∀ c ∈ ds, c.isDigit = true := by
    clear h
    induction ds with
    | nil => exact fun _ _ => nofun
    | cons d ds ih =>
      intro m h
      obtain ⟨m', hm', h⟩ := Option.bind_eq_some_iff.1 h
      obtain ⟨k, hk, -⟩ := Option.map_eq_some_iff.1 hm'
      exact List.forall_mem_cons.2 ⟨isDigit_of_digit hk, ih m' h⟩
  exact hfrom 0 h

theorem digits_of_twoDigits {low high n : Nat} (h : twoDigits? low high cs = some (n, rest)) :
    ∃ a b, cs = [a, b] ++ rest ∧ a.isDigit = true ∧ b.isDigit = true := by
  unfold twoDigits? at h
  split at h
  next a b tail =>
    obtain ⟨m, ha, h⟩ := Option.bind_eq_some_iff.1 h
    obtain ⟨k, hb, h⟩ := Option.bind_eq_some_iff.1 h
    dsimp only at h
    split at h
    · cases h
      exact ⟨a, b, rfl, isDigit_of_digit ha, isDigit_of_digit hb⟩
    · cases h
  next => cases h

/-- The digits of a number go on up to what is no digit. -/
theorem moreDigits_append {x : Char} (hds : ∀ c ∈ ds, c.isDigit = true) (hx : x.isDigit = false)
    (hline : x ≠ '_') : moreDigits? 10 (ds ++ x :: rest) = some (ds, x :: rest) := by
  induction ds with
  | nil =>
    rw [List.nil_append]
    unfold moreDigits?
    split
    next heq => exact absurd (List.cons.inj heq).1 hline
    next heq => exact absurd (List.cons.inj heq).1 hline
    next heq =>
      cases heq
      rw [digit_ten, hx]
      rfl
    next heq => cases heq
  | cons d ds ih =>
    obtain ⟨hd, hds⟩ := List.forall_mem_cons.1 hds
    have hd' : d ≠ '_' := by
      rintro rfl
      cases hd
    rw [List.cons_append]
    unfold moreDigits?
    split
    next heq => exact absurd (List.cons.inj heq).1 hd'
    next heq => exact absurd (List.cons.inj heq).1 hd'
    next heq =>
      cases heq
      rw [digit_ten, hd, ih hds]
      rfl
    next heq => cases heq

/-- How a natural number is written: with digits, and with a zero in front only if there is nothing
else. -/
structure IsNumeral (ds : List Char) : Prop where
  ne_nil : ds ≠ []
  isDigit : ∀ c ∈ ds, c.isDigit = true
  zero : ds.head? = some '0' → ds = ['0']

theorem isNumeral_decimalDigits (n : Nat) : IsNumeral (decimalDigits n) where
  ne_nil := Nat.toDigits_ne_nil
  isDigit c hc := Nat.isDigit_of_mem_toDigits (by decide) (by decide) hc
  zero h := by
    rw [eq_zero_of_head?_decimalDigits h]
    rfl

namespace IsNumeral

theorem sign_append (h : IsNumeral ds) : sign (ds ++ rest) = (false, ds ++ rest) := by
  obtain ⟨d, ds, rfl⟩ := List.exists_cons_of_ne_nil h.ne_nil
  have hd := h.isDigit d List.mem_cons_self
  rw [List.cons_append]
  unfold sign
  split
  next heq =>
    obtain ⟨rfl, -⟩ := List.cons.inj heq
    cases hd
  next heq =>
    obtain ⟨rfl, -⟩ := List.cons.inj heq
    cases hd
  next => rfl

theorem eq_zero_of_append (h : IsNumeral ds) {tail : List Char} (heq : ds ++ rest = '0' :: tail) :
    ds = ['0'] := by
  refine h.zero ?_
  rw [← List.head?_append_of_ne_nil ds h.ne_nil, heq]
  rfl

theorem decimal_line (h : IsNumeral ds) :
    decimal? (ds ++ '\n' :: rest) = some ((false, ds), '\n' :: rest) := by
  unfold decimal?
  rw [h.sign_append]
  dsimp only
  split
  next heq =>
    have hzero := h.eq_zero_of_append heq
    rw [hzero] at heq ⊢
    cases heq
    rfl
  next =>
    obtain ⟨d, ds, rfl⟩ := List.exists_cons_of_ne_nil h.ne_nil
    obtain ⟨hd, hds⟩ := List.forall_mem_cons.1 h.isDigit
    rw [List.cons_append, digits?, digit_ten, hd, moreDigits_append hds rfl (by decide)]
    rfl

/-- What stands in front of a number decides that it is none of the other values. -/
theorem head_ne (h : IsNumeral ds) {x : Char} (hx : x.isDigit = false) {tail : List Char}
    (heq : ds ++ rest = x :: tail) : False := by
  obtain ⟨d, ds, rfl⟩ := List.exists_cons_of_ne_nil h.ne_nil
  obtain ⟨rfl, -⟩ := List.cons.inj heq
  have hd := h.isDigit d List.mem_cons_self
  rw [hx] at hd
  cases hd

theorem text_line (h : IsNumeral ds) : text? (ds ++ rest) = none := by
  unfold text?
  split
  next heq => exact (h.head_ne rfl heq).elim
  next heq => exact (h.head_ne rfl heq).elim
  next =>
    unfold string?
    split
    next heq => exact (h.head_ne rfl heq).elim
    next heq => exact (h.head_ne rfl heq).elim
    next => rfl

theorem boolean_line (h : IsNumeral ds) : boolean? (ds ++ rest) = none := by
  unfold boolean?
  split
  next heq => exact (h.head_ne rfl heq).elim
  next heq => exact (h.head_ne rfl heq).elim
  next => rfl

/-- A date begins with four digits and a hyphen. -/
theorem date_line (h : IsNumeral ds) : date? (ds ++ '\n' :: rest) = none := by
  unfold date?
  split
  next a b c d tail heq =>
    refine Option.bind_eq_none_iff.2 fun year hyear => absurd heq fun heq => ?_
    have hsplit : ds ++ '\n' :: rest = [a, b, c, d] ++ '-' :: tail := heq
    obtain ⟨-, hnewline, -⟩ :=
      digits_append_inj h.isDigit (isDigit_of_digitsValue hyear) rfl rfl hsplit
    exact absurd hnewline (by decide)
  next => rfl

/-- A time begins with two digits and a colon. -/
theorem time_line (h : IsNumeral ds) : time? (ds ++ '\n' :: rest) = none := by
  refine Option.bind_eq_none_iff.2 fun ⟨n, tail⟩ htwo => ?_
  obtain ⟨a, b, heq, ha, hb⟩ := digits_of_twoDigits htwo
  dsimp only
  split
  next heq' =>
    cases heq'
    have hab : ∀ c ∈ [a, b], c.isDigit = true := by simp [ha, hb]
    obtain ⟨-, hnewline, -⟩ := digits_append_inj h.isDigit hab rfl rfl heq
    exact absurd hnewline (by decide)
  next => rfl

theorem float_line (h : IsNumeral ds) : float? (ds ++ '\n' :: rest) = none := by
  unfold float?
  rw [h.decimal_line]
  rfl

/-- Behind a zero in front the line ends. -/
theorem eq_newline_of_zero (h : IsNumeral ds) {x : Char} {tail : List Char}
    (heq : ds ++ '\n' :: rest = '0' :: x :: tail) : x = '\n' := by
  rw [h.eq_zero_of_append heq] at heq
  cases heq
  rfl

theorem integer_line (h : IsNumeral ds) (hfits : digitsValue ds < 9223372036854775808) :
    integer? (ds ++ '\n' :: rest) = some ((digitsValue ds : Int), '\n' :: rest) := by
  have hfits : fits? (digitsValue ds : Int) = some (digitsValue ds : Int) :=
    if_pos ⟨by omega, by omega⟩
  unfold integer?
  split
  next heq => exact absurd (h.eq_newline_of_zero heq) (by decide)
  next heq => exact absurd (h.eq_newline_of_zero heq) (by decide)
  next heq => exact absurd (h.eq_newline_of_zero heq) (by decide)
  next =>
    refine Option.bind_eq_some_iff.2 ⟨_, h.decimal_line, ?_⟩
    refine Option.bind_eq_some_iff.2 ⟨_, digitsValue_of_isDigit h.isDigit, ?_⟩
    exact Option.bind_eq_some_iff.2 ⟨_, hfits, rfl⟩

/-- A number on a line is read as an integer. -/
theorem scalar_line (h : IsNumeral ds) (hfits : digitsValue ds < 9223372036854775808) :
    scalar (ds ++ '\n' :: rest) = some (.integer (digitsValue ds), '\n' :: rest) := by
  have hdateTime : dateTime? (ds ++ '\n' :: rest) = none := by
    unfold dateTime?
    rw [h.date_line, h.time_line]
  rw [scalar, h.text_line, h.boolean_line, hdateTime, h.float_line, h.integer_line hfits]
  rfl

end IsNumeral

/-! ## Keys and lines -/

/-- The key is written without quotes. -/
def IsName (key : String) : Prop :=
  key.toList ≠ [] ∧ ∀ c ∈ key.toList, isBare c = true

instance (key : String) : Decidable (IsName key) :=
  have : Decidable (∀ c ∈ key.toList, isBare c = true) := List.decidableBAll _ _
  inferInstanceAs (Decidable (_ ∧ _))

/-- A line that is written: a header of a table, or a field of the table. -/
inductive WrittenLine where
  | header (key : String)
  | field (key : String) (v : Plain)

namespace WrittenLine

/-- What the line says. -/
def line : WrittenLine → Line
  | header key => .header [] key
  | field key v => .assignment [] key v.value

def chars : WrittenLine → List Char
  | header key => '[' :: key.toList ++ [']', '\n']
  | field key v => key.toList ++ [' ', '=', ' '] ++ v.chars ++ ['\n']

/-- The line can be read. -/
def Fits : WrittenLine → Prop
  | header key => IsName key
  | field key v => IsName key ∧ v.Fits

end WrittenLine

/-- A character of a name starts none of the other things that may stand on a line. -/
theorem name_cases {key : String} (hkey : IsName key) : ∃ c cs, key.toList = c :: cs ∧
    isBare c = true ∧ (∀ d ∈ cs, isBare d = true) := by
  obtain ⟨c, cs, heq⟩ := List.exists_cons_of_ne_nil hkey.1
  exact ⟨c, cs, heq, List.forall_mem_cons.1 (heq ▸ hkey.2)⟩

theorem ne_of_isBare {x : Char} (hc : isBare c = true) (hx : isBare x = false) : c ≠ x := by
  rintro rfl
  rw [hx] at hc
  cases hc

theorem skipWhite_cons (hc : isWhite c = false) : skipWhite (c :: cs) = c :: cs :=
  List.dropWhile_cons_of_neg (by rw [hc]; decide)

theorem skipWhite_name (hc : isBare c = true) : skipWhite (c :: cs) = c :: cs := by
  refine skipWhite_cons (Bool.eq_false_iff.2 fun hwhite => ?_)
  rw [isWhite, Bool.or_eq_true, beq_iff_eq, beq_iff_eq] at hwhite
  exact hwhite.elim (ne_of_isBare hc rfl) (ne_of_isBare hc rfl)

theorem newline_name (hc : isBare c = true) : newline? (c :: cs) = none := by
  unfold newline?
  split
  next heq => exact absurd (List.cons.inj heq).1 (ne_of_isBare hc rfl)
  next heq => exact absurd (List.cons.inj heq).1 (ne_of_isBare hc rfl)
  next => rfl

/-- A key without a point names no path. -/
theorem key_name {key : String} {x : Char} (hkey : IsName key) (hx : isBare x = false)
    (hpoint : ∀ tail, skipWhite (x :: rest) ≠ '.' :: tail) :
    key? (key.toList ++ x :: rest) = some (([], key), skipWhite (x :: rest)) := by
  obtain ⟨c, cs, heq, hc, hcs⟩ := name_cases hkey
  have hspan : (c :: (cs ++ x :: rest)).span isBare = (c :: cs, x :: rest) := by
    rw [List.span_eq_takeWhile_dropWhile, ← List.cons_append,
      List.takeWhile_append_of_pos (heq ▸ hkey.2), List.dropWhile_append_of_pos (heq ▸ hkey.2),
      List.takeWhile_cons_of_neg (by rw [hx]; decide),
      List.dropWhile_cons_of_neg (by rw [hx]; decide), List.append_nil]
  have hpart : keyPart? (c :: (cs ++ x :: rest)) = some (key, x :: rest) := by
    have hquote : ¬ (c = '"' ∨ c = '\'') := fun hquote =>
      hquote.elim (ne_of_isBare hc rfl) (ne_of_isBare hc rfl)
    rw [keyPart?, if_neg hquote, hspan]
    show some (String.ofList (c :: cs), x :: rest) = _
    rw [← heq, String.ofList_toList]
  have hparts : keyParts? 79 (c :: (cs ++ x :: rest)) = some ([key], skipWhite (x :: rest)) := by
    rw [keyParts?, skipWhite_name hc]
    refine Option.bind_eq_some_iff.2 ⟨_, hpart, ?_⟩
    dsimp only
    split
    next heq => exact absurd heq (hpoint _)
    next => rfl
  rw [heq, List.cons_append]
  exact Option.bind_eq_some_iff.2 ⟨_, hparts, rfl⟩

/-- A value on a line is read as what it was written for. -/
theorem value_line {v : Plain} (hv : v.Fits) :
    value? (v.chars ++ '\n' :: rest) = some (v.value, '\n' :: rest) := by
  have hscalar : scalar (v.chars ++ '\n' :: rest) = some (v.value, '\n' :: rest) := by
    cases v with
    | integer n =>
      have hvalue : digitsValue (decimalDigits n) = n :=
        Nat.ofDigitChars_toDigits (by decide) (by decide)
      have hread : scalar (decimalDigits n ++ '\n' :: rest) =
          some (.integer (digitsValue (decimalDigits n)), '\n' :: rest) :=
        (isNumeral_decimalDigits n).scalar_line (by rwa [hvalue])
      rwa [hvalue] at hread
    | boolean b => cases b <;> rfl
  have hopen : ∀ tail, v.chars ++ '\n' :: rest ≠ '[' :: tail ∧
      v.chars ++ '\n' :: rest ≠ '\x7b' :: tail := by
    intro tail
    cases v with
    | integer n =>
      have hnumeral := isNumeral_decimalDigits n
      exact ⟨fun heq => hnumeral.head_ne rfl heq, fun heq => hnumeral.head_ne rfl heq⟩
    | boolean b => cases b <;> exact ⟨nofun, nofun⟩
  unfold value? valueFrom?
  split
  next heq _ => exact absurd heq (hopen _).1
  next heq _ => exact absurd heq (hopen _).2
  next heq _ => exact absurd heq (hopen _).1
  next heq _ => exact absurd heq (hopen _).2
  next => exact hscalar

/-- A value starts with no blank. -/
theorem skipWhite_chars (v : Plain) :
    skipWhite (' ' :: (v.chars ++ '\n' :: rest)) = v.chars ++ '\n' :: rest := by
  have hblank : skipWhite (' ' :: (v.chars ++ '\n' :: rest)) =
      skipWhite (v.chars ++ '\n' :: rest) := rfl
  rw [hblank]
  cases v with
  | integer n =>
    have hnumeral := isNumeral_decimalDigits n
    obtain ⟨d, ds, hds⟩ := List.exists_cons_of_ne_nil hnumeral.ne_nil
    have hd : d.isDigit = true := hnumeral.isDigit d (hds ▸ List.mem_cons_self)
    rw [Plain.chars, hds, List.cons_append]
    refine skipWhite_name ?_
    rw [isBare, Char.isAlphanum, hd, Bool.or_true]
    rfl
  | boolean b => cases b <;> rfl

theorem lineBody_header {key : String} (hkey : IsName key) :
    lineBody? ('[' :: (key.toList ++ ']' :: rest)) = some (.header [] key, rest) := by
  obtain ⟨c, cs, heq, hc, -⟩ := name_cases hkey
  have hread : key? (key.toList ++ ']' :: rest) = some (([], key), ']' :: rest) :=
    key_name hkey rfl nofun
  unfold lineBody?
  split
  next heq' => cases heq'
  next heq' =>
    obtain ⟨-, heq'⟩ := List.cons.inj heq'
    rw [heq] at heq'
    exact absurd (List.cons.inj heq').1 (ne_of_isBare hc rfl)
  next heq' =>
    cases heq'
    exact Option.bind_eq_some_iff.2 ⟨_, hread, rfl⟩
  next hbracket heq' =>
    obtain ⟨rfl, -⟩ := List.cons.inj heq'
    exact absurd rfl hbracket

theorem lineBody_field {key : String} {v : Plain} (hkey : IsName key) (hv : v.Fits) :
    lineBody? (key.toList ++ ' ' :: '=' :: ' ' :: (v.chars ++ '\n' :: rest)) =
      some (.assignment [] key v.value, '\n' :: rest) := by
  obtain ⟨c, cs, heq, hc, -⟩ := name_cases hkey
  have hread : key? (key.toList ++ ' ' :: '=' :: ' ' :: (v.chars ++ '\n' :: rest)) =
      some (([], key), '=' :: ' ' :: (v.chars ++ '\n' :: rest)) :=
    key_name hkey rfl nofun
  rw [heq, List.cons_append] at hread ⊢
  unfold lineBody?
  split
  next heq' => cases heq'
  next heq' => exact absurd (List.cons.inj heq').1 (ne_of_isBare hc rfl)
  next heq' => exact absurd (List.cons.inj heq').1 (ne_of_isBare hc rfl)
  next heq' =>
    cases heq'
    have hrest : ¬ (c = '#' ∨ (newline? (c :: (cs ++ ' ' :: '=' :: ' ' ::
        (v.chars ++ '\n' :: rest)))).isSome) := by
      rw [newline_name hc, not_or]
      exact ⟨ne_of_isBare hc rfl, Bool.false_ne_true⟩
    have hvalue : value? (skipWhite (' ' :: (v.chars ++ '\n' :: rest))) =
        some (v.value, '\n' :: rest) := by
      rw [skipWhite_chars]
      exact value_line hv
    rw [if_neg hrest]
    refine Option.bind_eq_some_iff.2 ⟨_, hread, ?_⟩
    exact Option.bind_eq_some_iff.2 ⟨_, hvalue, rfl⟩

namespace WrittenLine

variable {l : WrittenLine} {ls : List WrittenLine}

/-- A written line starts with no blank. -/
theorem chars_cases (h : l.Fits) : ∃ c cs, l.chars = c :: cs ∧ (c = '[' ∨ isBare c = true) := by
  cases l with
  | header key => exact ⟨'[', _, rfl, .inl rfl⟩
  | field key v =>
    obtain ⟨c, cs, heq, hc, -⟩ := name_cases h.1
    refine ⟨c, cs ++ [' ', '=', ' '] ++ v.chars ++ ['\n'], ?_, .inr hc⟩
    rw [chars, heq]
    rfl

theorem lineBody_chars (h : l.Fits) (rest : List Char) :
    ∃ behind, lineBody? (l.chars ++ rest) = some (l.line, behind) ∧
      lineEnd? behind = some rest := by
  cases l with
  | header key =>
    have hbody : lineBody? ('[' :: (key.toList ++ ']' :: '\n' :: rest)) =
        some (.header [] key, '\n' :: rest) := lineBody_header h
    refine ⟨'\n' :: rest, ?_, rfl⟩
    simpa [chars, line] using hbody
  | field key v =>
    have hbody : lineBody? (key.toList ++ ' ' :: '=' :: ' ' :: (v.chars ++ '\n' :: rest)) =
        some (.assignment [] key v.value, '\n' :: rest) := lineBody_field h.1 h.2
    refine ⟨'\n' :: rest, ?_, rfl⟩
    simpa [chars, line] using hbody

/-- Written lines are read back. -/
theorem linesFrom_chars (h : ∀ l ∈ ls, l.Fits) {fuel : Nat} (hfuel : ls.length < fuel) :
    linesFrom? fuel (ls.flatMap chars) = some (ls.map line) := by
  induction ls generalizing fuel with
  | nil =>
    obtain ⟨fuel, rfl⟩ := Nat.exists_eq_succ_of_ne_zero (Nat.ne_of_gt hfuel)
    rfl
  | cons l ls ih =>
    obtain ⟨hl, hls⟩ := List.forall_mem_cons.1 h
    obtain ⟨fuel, rfl⟩ := Nat.exists_eq_succ_of_ne_zero (Nat.ne_zero_of_lt hfuel)
    obtain ⟨behind, hbody, hend⟩ := lineBody_chars hl (ls.flatMap chars)
    obtain ⟨c, cs, heq, hc⟩ := chars_cases hl
    have hwhite : skipWhite (l.chars ++ ls.flatMap chars) = l.chars ++ ls.flatMap chars := by
      rw [heq, List.cons_append]
      rcases hc with rfl | hc
      · rfl
      · exact skipWhite_name hc
    rw [List.flatMap_cons, linesFrom?, hwhite]
    split
    next hnil =>
      rw [heq] at hnil
      cases hnil
    next =>
      refine Option.bind_eq_some_iff.2 ⟨_, hbody, ?_⟩
      refine Option.bind_eq_some_iff.2 ⟨_, hend, ?_⟩
      exact Option.bind_eq_some_iff.2 ⟨_, ih hls (Nat.lt_of_succ_lt_succ hfuel), rfl⟩

theorem length_le_chars (h : ∀ l ∈ ls, l.Fits) :
    ls.length ≤ (ls.flatMap chars).length := by
  induction ls with
  | nil => exact Nat.le_refl 0
  | cons l ls ih =>
    obtain ⟨hl, hls⟩ := List.forall_mem_cons.1 h
    obtain ⟨c, cs, heq, -⟩ := chars_cases hl
    have hle := ih hls
    rw [List.flatMap_cons, heq, List.length_append, List.length_cons, List.length_cons]
    omega

theorem textLines_chars (h : ∀ l ∈ ls, l.Fits) :
    textLines? (String.ofList (ls.flatMap chars)) = some (ls.map line) := by
  unfold textLines?
  rw [String.toList_ofList]
  dsimp only
  split
  next heq =>
    -- no line starts with a byte order mark
    cases ls with
    | nil => cases heq
    | cons l ls =>
      obtain ⟨c, cs, hl, hc⟩ := chars_cases (h l List.mem_cons_self)
      rw [List.flatMap_cons, hl] at heq
      obtain ⟨rfl, -⟩ := List.cons.inj heq
      exact absurd hc (by decide)
  next => exact linesFrom_chars h (Nat.lt_succ_of_le (length_le_chars h))

end WrittenLine

/-! ## Documents -/

/-- A document of fields, and of sections with fields of their own. -/
structure Written where
  fields : List (String × Plain)
  sections : List (String × List (String × Plain))

/-- The entries of some fields. -/
def fieldEntries (fields : List (String × Plain)) : Entries :=
  fields.map fun (key, v) => (key, v.value)

/-- The lines of some fields. -/
def fieldLines (fields : List (String × Plain)) : List WrittenLine :=
  fields.map fun (key, v) => .field key v

theorem fieldEntries_nil : fieldEntries [] = [] := rfl

theorem map_fst_fieldEntries (fields : List (String × Plain)) :
    (fieldEntries fields).map (·.1) = fields.map (·.1) := by
  rw [fieldEntries, List.map_map]
  rfl

namespace Written

/-- The lines of a document, without blank lines and comments. -/
def lines (w : Written) : List WrittenLine :=
  fieldLines w.fields ++ w.sections.flatMap fun (key, fields) => .header key :: fieldLines fields

def text (w : Written) : String :=
  String.ofList (w.lines.flatMap WrittenLine.chars)

/-- What the document is written for. -/
def entries (w : Written) : Entries :=
  fieldEntries w.fields ++
    w.sections.map fun (key, fields) => (key, .table .header (fieldEntries fields))

/-- The document can be read. -/
structure Fits (w : Written) : Prop where
  lines : ∀ l ∈ w.lines, l.Fits
  keys : (w.entries.map (·.1)).Nodup
  within : ∀ s ∈ w.sections, (s.2.map (·.1)).Nodup

end Written

section Adding

variable {es sub : Entries} {key : String} {v v' : Value} {fields : List (String × Plain)}

theorem lookup_concat (hkey : key ∉ es.map (·.1)) : (es ++ [(key, v)]).lookup key = some v := by
  have hnone : ∀ e ∈ es, (key != e.1) = true :=
    List.lookup_eq_none_iff.1 (Entries.lookup_eq_none_iff.2 hkey)
  exact List.lookup_eq_some_iff.2 ⟨es, [], rfl, hnone⟩

theorem set_concat (hkey : key ∉ es.map (·.1)) :
    Entries.set (es ++ [(key, v)]) key v' = es ++ [(key, v')] := by
  have hothers : (es.map fun e => if e.1 == key then (e.1, v') else e) = es := by
    refine (List.map_congr_left fun e he => if_neg fun heq => hkey ?_).trans (List.map_id es)
    rw [← eq_of_beq heq]
    exact List.mem_map_of_mem he
  rw [Entries.set_of_mem (by simp), List.map_append, hothers, List.map_singleton,
    if_pos (beq_self_eq_true key)]

theorem insert_concat (hkey : key ∉ es.map (·.1)) :
    es.insert? .header [] key v = some (es ++ [(key, v)]) := by
  refine if_neg ?_
  rw [Entries.any_eq_false_iff.2 hkey]
  decide

theorem not_mem_of_nodup {keys later : List String} (h : (keys ++ key :: later).Nodup) :
    key ∉ keys :=
  fun hmem => (List.nodup_append.1 h).2.2 key hmem key List.mem_cons_self rfl

/-- Fields above all headers. -/
theorem foldlM_fields (hkeys : (es.map (·.1) ++ fields.map (·.1)).Nodup) :
    ((fieldLines fields).map WrittenLine.line).foldlM Reading.add? ⟨es, []⟩ =
      some ⟨es ++ fieldEntries fields, []⟩ := by
  induction fields generalizing es with
  | nil =>
    rw [fieldEntries_nil, List.append_nil]
    rfl
  | cons f fields ih =>
    obtain ⟨name, v⟩ := f
    have hname : name ∉ es.map (·.1) := not_mem_of_nodup hkeys
    have hrest := @ih (es ++ [(name, v.value)]) (by simpa using hkeys)
    rw [List.append_assoc] at hrest
    have hadd : Reading.add? ⟨es, []⟩ (WrittenLine.field name v).line =
        some ⟨es ++ [(name, v.value)], []⟩ :=
      Option.bind_eq_some_iff.2 ⟨_, insert_concat hname, rfl⟩
    exact Option.bind_eq_some_iff.2 ⟨_, hadd, hrest⟩

/-- Fields below the header of their table. -/
theorem foldlM_section_fields (hkey : key ∉ es.map (·.1))
    (hkeys : (sub.map (·.1) ++ fields.map (·.1)).Nodup) :
    ((fieldLines fields).map WrittenLine.line).foldlM Reading.add?
        ⟨es ++ [(key, .table .header sub)], [key]⟩ =
      some ⟨es ++ [(key, .table .header (sub ++ fieldEntries fields))], [key]⟩ := by
  induction fields generalizing sub with
  | nil =>
    rw [fieldEntries_nil, List.append_nil]
    rfl
  | cons f fields ih =>
    obtain ⟨name, v⟩ := f
    have hname : name ∉ sub.map (·.1) := not_mem_of_nodup hkeys
    have hrest := @ih (sub ++ [(name, v.value)]) (by simpa using hkeys)
    rw [List.append_assoc] at hrest
    have hmodify : Entries.modifyAt false (fun origin es => es.insert? origin [] name v.value)
        [key] .header (es ++ [(key, .table .header sub)]) =
        some (es ++ [(key, .table .header (sub ++ [(name, v.value)]))]) := by
      rw [Entries.modifyAt, lookup_concat hkey]
      refine Option.bind_eq_some_iff.2 ⟨_, insert_concat hname, ?_⟩
      rw [set_concat hkey]
      rfl
    have hadd : Reading.add? ⟨es ++ [(key, .table .header sub)], [key]⟩
        (WrittenLine.field name v).line =
        some ⟨es ++ [(key, .table .header (sub ++ [(name, v.value)]))], [key]⟩ :=
      Option.bind_eq_some_iff.2 ⟨_, hmodify, rfl⟩
    exact Option.bind_eq_some_iff.2 ⟨_, hadd, hrest⟩

/-- A section with its fields. -/
theorem foldlM_section (hkey : key ∉ es.map (·.1)) (hkeys : (fields.map (·.1)).Nodup)
    (current : List String) :
    ((.header key :: fieldLines fields).map WrittenLine.line).foldlM Reading.add? ⟨es, current⟩ =
      some ⟨es ++ [(key, .table .header (fieldEntries fields))], [key]⟩ := by
  have hopen : Reading.openTable? key es = some (es ++ [(key, .table .header [])]) := by
    rw [Reading.openTable?, Entries.lookup_eq_none_iff.2 hkey]
  have hadd : Reading.add? ⟨es, current⟩ (WrittenLine.header key).line =
      some ⟨es ++ [(key, .table .header [])], [key]⟩ :=
    Option.bind_eq_some_iff.2 ⟨_, hopen, rfl⟩
  have hfields := @foldlM_section_fields es [] key fields hkey hkeys
  exact Option.bind_eq_some_iff.2 ⟨_, hadd, hfields⟩

theorem foldlM_sections {sections : List (String × List (String × Plain))} {current : List String}
    (hkeys : (es.map (·.1) ++ sections.map (·.1)).Nodup)
    (hwithin : ∀ s ∈ sections, (s.2.map (·.1)).Nodup) :
    ∃ current', ((sections.flatMap fun (key, fields) => .header key :: fieldLines fields).map
        WrittenLine.line).foldlM Reading.add? ⟨es, current⟩ =
      some ⟨es ++ sections.map fun (key, fields) => (key, .table .header (fieldEntries fields)),
        current'⟩ := by
  induction sections generalizing es current with
  | nil =>
    rw [List.map_nil, List.append_nil]
    exact ⟨current, rfl⟩
  | cons s sections ih =>
    obtain ⟨key, fields⟩ := s
    obtain ⟨hfields, hwithin⟩ := List.forall_mem_cons.1 hwithin
    have hkey : key ∉ es.map (·.1) := not_mem_of_nodup hkeys
    obtain ⟨current', hrest⟩ := @ih (es ++ [(key, .table .header (fieldEntries fields))]) [key]
      (by simpa using hkeys) hwithin
    rw [List.append_assoc] at hrest
    refine ⟨current', ?_⟩
    rw [List.flatMap_cons, List.map_append, List.foldlM_append]
    exact Option.bind_eq_some_iff.2 ⟨_, foldlM_section hkey hfields current, hrest⟩

end Adding

/-- A written document is read as what it was written for. -/
theorem document_written {w : Written} (h : w.Fits) : document? w.text = some w.entries := by
  have hkeys : (w.fields.map (·.1) ++ w.sections.map (·.1)).Nodup := by
    have hkeys := h.keys
    rw [Written.entries, List.map_append, map_fst_fieldEntries, List.map_map] at hkeys
    exact hkeys
  have hfields := @foldlM_fields [] w.fields (List.nodup_append.1 hkeys).1
  obtain ⟨current, hsections⟩ := @foldlM_sections (fieldEntries w.fields) w.sections []
    (by rwa [map_fst_fieldEntries]) h.within
  refine Option.bind_eq_some_iff.2 ⟨_, WrittenLine.textLines_chars h.lines, ?_⟩
  refine Option.bind_eq_some_iff.2 ⟨⟨w.entries, current⟩, ?_, rfl⟩
  rw [Written.lines, List.map_append, List.foldlM_append]
  exact Option.bind_eq_some_iff.2 ⟨_, hfields, hsections⟩

end Sharding.Toml
