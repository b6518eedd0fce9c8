import Sharding.Datum.Basic
import Sharding.Proofs.Datum.DecimalText

/-!
# The characters of literals

Literals of texts, dates and bytes stand between quotes.  The others are `Bare`: they are written
with digits, a point, a minus sign and letters, and are not empty.  What stands between the quotes
of a date or of bytes has no quote in it.

In the text of a physical statement a parameter is a question mark.  No literal is one
(`literal_ne_mark`).
-/

namespace Sharding

/-- The characters of literals that stand without quotes. -/
def isBare (c : Char) : Bool :=
  c.isAlphanum || c == '-' || c == '.'

/-- All characters may stand without quotes. -/
def Bare (cs : List Char) : Prop :=
  ∀ c ∈ cs, isBare c = true

instance (cs : List Char) : Decidable (Bare cs) :=
  List.decidableBAll (fun c => isBare c = true) cs

section Bare

variable {cs ds : List Char}

theorem bare_nil : Bare [] :=
  fun _ h => absurd h List.not_mem_nil

theorem Bare.append (hcs : Bare cs) (hds : Bare ds) : Bare (cs ++ ds) :=
  List.forall_mem_append.2 ⟨hcs, hds⟩

theorem Bare.cons {c : Char} (hc : isBare c = true) (hcs : Bare cs) : Bare (c :: cs) :=
  List.forall_mem_cons.2 ⟨hc, hcs⟩

theorem Bare.sublist (h : Bare ds) (hsub : cs.Sublist ds) : Bare cs :=
  fun c hc => h c (hsub.mem hc)

theorem bare_zeros (n : Nat) : Bare (List.replicate n '0') := by
  intro c hc
  rw [List.eq_of_mem_replicate hc]
  rfl

end Bare

/-! ## Numbers -/

theorem bare_digits (n : Nat) : Bare (decimalDigits n) := by
  intro c hc
  have hdigit : c.isDigit = true := Nat.isDigit_of_mem_toDigits (by decide) (by decide) hc
  rw [isBare, Char.isAlphanum, hdigit, Bool.or_true]
  rfl

theorem bare_intText (n : Int) : Bare (intText n).toList := by
  rw [intText, String.toList_ofList]
  split
  · exact .cons rfl (bare_digits _)
  · exact bare_digits _

theorem intText_ne_nil (n : Int) : (intText n).toList ≠ [] := by
  rw [intText, String.toList_ofList]
  split
  · exact List.cons_ne_nil _ _
  · exact Nat.toDigits_ne_nil

theorem Decimal.bare_text (d : Decimal) : Bare d.text.toList := by
  have hdigits : Bare d.paddedDigits := (bare_zeros _).append (bare_digits _)
  rw [Decimal.text, String.toList_ofList]
  refine Bare.append (.append ?_ (hdigits.sublist (List.take_sublist _ _))) ?_
  · split <;> decide
  · split
    · exact bare_nil
    · exact .cons rfl (hdigits.sublist (List.drop_sublist _ _))

theorem Decimal.text_ne_nil (d : Decimal) : d.text.toList ≠ [] := by
  rw [text, String.toList_ofList, ← d.chars_numeral, Numeral.chars, Numeral.unsigned]
  simp [d.numeral.whole_ne_nil]

/-! ## Floats -/

theorem bare_placePoint {ds : List Char} (h : Bare ds) (whole : Int) :
    Bare (placePoint ds whole) := by
  unfold placePoint
  split
  · exact .cons rfl (.cons rfl ((bare_zeros _).append h))
  · split
    · exact h.append (bare_zeros _)
    · exact .append (h.sublist (List.take_sublist _ _))
        (.cons rfl (h.sublist (List.drop_sublist _ _)))

theorem placePoint_ne_nil (ds : List Char) (whole : Int) : placePoint ds whole ≠ [] := by
  unfold placePoint
  split
  · exact List.cons_ne_nil _ _
  · split
    · intro hnil
      have hlength := congrArg List.length hnil
      rw [List.length_append, List.length_replicate, List.length_nil] at hlength
      omega
    · simp

theorem bare_positiveText (m field : Nat) : Bare (positiveText m field) := by
  refine bare_placePoint (fun c hc => ?_) _
  rw [withoutTrailingZeros, List.mem_reverse] at hc
  exact bare_digits _ c (List.mem_reverse.1 ((List.dropWhile_sublist _).mem hc))

theorem bare_floatText (x : Float) : Bare (floatText x).toList := by
  unfold floatText
  dsimp only
  have hsign : ∀ s : String, Bare s.toList →
      Bare ((if x.toBits.toNat / twoTo 63 = 1 then "-" else "") ++ s).toList := by
    intro s hs
    rw [String.toList_append]
    refine Bare.append ?_ hs
    split <;> decide
  split
  · split
    · exact hsign _ (by decide)
    · decide
  · split
    · exact hsign _ (by decide)
    · refine hsign _ ?_
      rw [String.toList_ofList]
      exact bare_positiveText _ _

theorem floatText_ne_nil (x : Float) : (floatText x).toList ≠ [] := by
  have hsign : ∀ sign s : String, s.toList ≠ [] → (sign ++ s).toList ≠ [] := by
    intro sign s hs
    rw [String.toList_append]
    exact List.append_ne_nil_of_right_ne_nil _ hs
  unfold floatText
  dsimp only
  split
  · split
    · exact hsign _ _ (by decide)
    · decide
  · split
    · exact hsign _ _ (by decide)
    · refine hsign _ _ ?_
      rw [String.toList_ofList]
      exact placePoint_ne_nil _ _

/-! ## Dates and bytes -/

theorem doubleQuotes_of_not_mem {cs : List Char} (h : '\'' ∉ cs) : doubleQuotes cs = cs := by
  induction cs with
  | nil => rfl
  | cons c cs ih =>
    rw [List.mem_cons, not_or] at h
    have hc : c ≠ '\'' := Ne.symm h.1
    have hcons : doubleQuotes (c :: cs) = c :: doubleQuotes cs := by simp [doubleQuotes, hc]
    rw [hcons, ih h.2]

theorem Bare.quote_not_mem {cs : List Char} (h : Bare cs) : '\'' ∉ cs :=
  fun hmem => absurd (h _ hmem) (by decide)

theorem bare_hexText (bytes : List UInt8) : Bare (hexText bytes).toList := by
  have hdigit : ∀ n < 16, isBare (Nat.digitChar n) = true := by decide
  rw [hexText, String.toList_ofList]
  intro c hc
  obtain ⟨b, -, hb⟩ := List.mem_flatMap.1 hc
  have hbyte := b.toNat_lt
  simp only [hexByte, List.mem_cons, List.not_mem_nil, or_false] at hb
  rcases hb with rfl | rfl
  · exact hdigit _ (by omega)
  · exact hdigit _ (by omega)

namespace Calendar

theorem bare_padded (width n : Nat) : Bare (padded width n).toList := by
  rw [padded, String.toList_ofList]
  exact (bare_zeros _).append (bare_digits n)

theorem quote_not_mem_date (d : Date) : '\'' ∉ d.text.toList := by
  have hpadded : ∀ width n, '\'' ∉ (padded width n).toList := fun width n =>
    (bare_padded width n).quote_not_mem
  have hyear : '\'' ∉ (yearText d.year).toList := by
    unfold yearText
    split
    · simp [hpadded]
    · split <;> simp [hpadded]
  simp [Date.text, hyear, hpadded]

theorem quote_not_mem_dayText (days : Int) : '\'' ∉ (dayText days).toList := by
  unfold dayText
  split
  · exact quote_not_mem_date _
  · exact (bare_intText days).quote_not_mem

theorem quote_not_mem_instantText (micros : Int) : '\'' ∉ (instantText micros).toList := by
  have hpadded : ∀ width n, '\'' ∉ (padded width n).toList := fun width n =>
    (bare_padded width n).quote_not_mem
  have hfraction : ∀ n, '\'' ∉ (fractionText n).toList := by
    intro n
    unfold fractionText
    split
    · decide
    · split <;> simp [hpadded]
  unfold instantText
  dsimp only
  split
  · simp [quote_not_mem_date, hpadded, hfraction]
  · exact (bare_intText micros).quote_not_mem

end Calendar

/-! ## Literals -/

/-- No literal is a question mark. -/
theorem Datum.literal_ne_mark (d : Datum) : d.literal ≠ "?" := by
  have hbare : ∀ {s : String}, Bare s.toList → s ≠ "?" := by
    rintro s hs rfl
    exact absurd (hs '?' (by decide)) (by decide)
  have hquoted : ∀ {s : String} {c : Char}, s.toList.head? = some c → c ≠ '?' → s ≠ "?" := by
    rintro s c hs hc rfl
    cases hs
    exact hc rfl
  cases d with
  | null => decide
  | boolean b => cases b <;> decide
  | int32 n => exact hbare (bare_intText _)
  | int64 n => exact hbare (bare_intText _)
  | float64 x => exact hbare (bare_floatText x.value)
  | decimal d => exact hbare d.bare_text
  | text s =>
    refine hquoted (c := '\'') ?_ (by decide)
    rw [Datum.literal, quoted, String.toList_ofList]
    rfl
  | timestamp micros =>
    refine hquoted (c := '\'') ?_ (by decide)
    rw [Datum.literal, String.toList_append, String.toList_append]
    rfl
  | date days =>
    refine hquoted (c := '\'') ?_ (by decide)
    rw [Datum.literal, String.toList_append, String.toList_append]
    rfl
  | bytea bytes =>
    refine hquoted (c := 'X') ?_ (by decide)
    rw [Datum.literal, String.toList_append, String.toList_append]
    rfl

end Sharding
