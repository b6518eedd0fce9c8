import Sharding.Proofs.Strict
import Sharding.Sql.Render

/-!
# Slices of a template's text

A template is rendered by cutting what is left of its text.  `slice` takes a stretch of the whole
text between two positions instead, and crashes when the positions are out of order, past the end
or inside of a character.

`Template.renderStrictly` renders by slices, behind one test of each token.  It agrees with
`Template.render` on every template: tokens may come in any order, overlap, reach past the end or
cut characters.  What makes the slices safe is that the position up to which the text has been
written is one where the text can be cut, and that it only grows.
-/

namespace Sharding.Sql

/-! ## Cutting -/

@[simp] theorem byteLength_nil : byteLength [] = 0 := rfl

@[simp] theorem byteLength_cons (c : Char) (cs : List Char) :
    byteLength (c :: cs) = c.utf8Size + byteLength cs := rfl

@[simp] theorem byteLength_append (front back : List Char) :
    byteLength (front ++ back) = byteLength front + byteLength back := by
  induction front with
  | nil => rw [List.nil_append, byteLength_nil, Nat.zero_add]
  | cons c front ih => rw [List.cons_append, byteLength_cons, byteLength_cons, ih, Nat.add_assoc]

theorem splitAtByte_zero (cs : List Char) : splitAtByte 0 cs = some ([], cs) := by
  cases cs <;> rfl

/-- A cut behind a prefix is a cut of the rest. -/
theorem splitAtByte_append {before : List Char} {n : Nat} (h : byteLength before ≤ n)
    (rest : List Char) :
    splitAtByte n (before ++ rest) =
      (splitAtByte (n - byteLength before) rest).map
        fun (front, back) => (before ++ front, back) := by
  induction before generalizing n with
  | nil => cases hcut : splitAtByte n rest <;> simp [hcut]
  | cons c before ih =>
    rw [byteLength_cons] at h
    have hpos := c.utf8Size_pos
    rw [List.cons_append, splitAtByte, if_neg (by omega), if_pos (by omega), ih (by omega),
      byteLength_cons, Nat.sub_add_eq, Option.map_map]
    rfl

/-- What a cut answers. -/
theorem splitAtByte_eq_some_iff {n : Nat} {cs front back : List Char} :
    splitAtByte n cs = some (front, back) ↔ cs = front ++ back ∧ byteLength front = n := by
  refine ⟨fun h => ?_, fun h => ?_⟩
  · induction cs generalizing n front with
    | nil =>
      rw [splitAtByte] at h
      split at h
      next hzero =>
        cases h
        exact ⟨rfl, hzero.symm⟩
      next => cases h
    | cons c cs ih =>
      rw [splitAtByte] at h
      split at h
      next hzero =>
        cases h
        exact ⟨rfl, hzero.symm⟩
      next =>
        split at h
        next hfits =>
          obtain ⟨⟨front', back'⟩, hcut, hpair⟩ := Option.map_eq_some_iff.1 h
          cases hpair
          obtain ⟨rfl, hlength⟩ := ih hcut
          refine ⟨rfl, ?_⟩
          rw [byteLength_cons, hlength]
          omega
        next => cases h
  · obtain ⟨rfl, rfl⟩ := h
    rw [splitAtByte_append (Nat.le_refl _), Nat.sub_self, splitAtByte_zero]
    simp only [Option.map_some, List.append_nil]

/-! ## Slices -/

/-- Whether a text can be cut at a position. -/
def isBoundary (cs : List Char) (n : Nat) : Bool :=
  (splitAtByte n cs).isSome

/-- The text between two positions. -/
def slice (cs : List Char) (start stop : Nat) : Except Stop (List Char) :=
  if start ≤ stop then
    match splitAtByte stop cs with
    | none => .error .crash
    | some (front, _) =>
      match splitAtByte start front with
      | none => .error .crash
      | some (_, piece) => .ok piece
  else .error .crash

theorem slice_eq {text piece : List Char} {start stop : Nat} (before after : List Char)
    (htext : text = before ++ piece ++ after) (hstart : byteLength before = start)
    (hstop : start + byteLength piece = stop) : slice text start stop = .ok piece := by
  have hlength : byteLength (before ++ piece) = stop := by
    rw [byteLength_append, hstart, hstop]
  have hfront := splitAtByte_eq_some_iff.2 ⟨htext, hlength⟩
  have hpiece : splitAtByte start (before ++ piece) = some (before, piece) :=
    splitAtByte_eq_some_iff.2 ⟨rfl, hstart⟩
  rw [slice, if_pos (by omega), hfront]
  dsimp only
  rw [hpiece]

/-- A position behind a prefix is one in the rest. -/
theorem isBoundary_append {before : List Char} {n : Nat} (h : byteLength before ≤ n)
    (rest : List Char) :
    isBoundary (before ++ rest) n = isBoundary rest (n - byteLength before) := by
  rw [isBoundary, splitAtByte_append h, Option.isSome_map, isBoundary]

theorem isBoundary_le {cs : List Char} {n : Nat} (h : isBoundary cs n = true) :
    n ≤ byteLength cs := by
  obtain ⟨⟨front, back⟩, hcut⟩ := Option.isSome_iff_exists.1 h
  obtain ⟨rfl, rfl⟩ := splitAtByte_eq_some_iff.1 hcut
  rw [byteLength_append]
  omega

/-! ## Rendering by slices -/

/-- Whether a token is out of place in a text that has been written up to a position. -/
def Token.misplaced (token : Token) (text : List Char) (cursor : Nat) : Bool :=
  token.offset < cursor || byteLength text < token.stop ||
    !isBoundary text token.offset || !isBoundary text token.stop

namespace Template

/-- Renders a text from a position on by taking slices of it. -/
def renderSlices (text : String) (s : Substitution) (cursor : Nat) (written : List Char) :
    List Token → Except Stop (List Char)
  | [] => do return written ++ (← slice text.toList cursor (byteLength text.toList))
  | token :: tokens =>
    if token.misplaced text.toList cursor then
      .error (.error (.routing (.malformedTemplate token text)))
    else do
      let gap ← slice text.toList cursor token.offset
      let piece ← slice text.toList token.offset token.stop
      let written ← routed (s.apply token (written ++ gap) piece)
      renderSlices text s token.stop written tokens

/-- The text of the physical statement of a substitution, by slices. -/
def renderStrictly (t : Template) (s : Substitution) : Except Stop String := do
  let chars ← renderSlices t.text s 0 [] t.tokens
  return String.ofList chars

end Template

/-- What a cut around a token answers. -/
theorem cutToken_eq_some {token : Token} {cursor : Nat} {rest gap piece after : List Char}
    (h : cutToken cursor rest token = some (gap, piece, after)) :
    rest = gap ++ piece ++ after ∧ cursor + byteLength gap = token.offset ∧
      byteLength piece = token.length := by
  unfold cutToken at h
  split at h
  next => cases h
  next hcursor =>
    obtain ⟨⟨gap', back⟩, hgap, h⟩ := Option.bind_eq_some_iff.1 h
    obtain ⟨⟨piece', after'⟩, hpiece, h⟩ := Option.bind_eq_some_iff.1 h
    cases h
    obtain ⟨rfl, hoffset⟩ := splitAtByte_eq_some_iff.1 hgap
    obtain ⟨rfl, hlength⟩ := splitAtByte_eq_some_iff.1 hpiece
    refine ⟨(List.append_assoc _ _ _).symm, ?_, hlength⟩
    rw [hoffset]
    omega

/-- A token is out of place when the rest of the text cannot be cut around it. -/
theorem misplaced_eq (token : Token) (before rest : List Char) :
    token.misplaced (before ++ rest) (byteLength before) =
      (cutToken (byteLength before) rest token).isNone := by
  by_cases hcursor : token.offset < byteLength before
  · rw [Token.misplaced, decide_eq_true hcursor, cutToken, if_pos hcursor]
    rfl
  · rw [Token.misplaced, decide_eq_false hcursor, cutToken, if_neg hcursor,
      isBoundary_append (by omega)]
    cases hgap : splitAtByte (token.offset - byteLength before) rest with
    | none =>
      rw [isBoundary, hgap]
      simp
    | some cut =>
      obtain ⟨gap, back⟩ := cut
      obtain ⟨rfl, hoffset⟩ := splitAtByte_eq_some_iff.1 hgap
      have hstop : token.stop = byteLength (before ++ gap) + token.length := by
        rw [byteLength_append, hoffset, Token.stop]
        omega
      -- Behind the gap only the token's end can still be out of place.
      have hend : isBoundary (before ++ (gap ++ back)) token.stop =
          (splitAtByte token.length back).isSome := by
        rw [← List.append_assoc, hstop, isBoundary_append (Nat.le_add_right _ _),
          Nat.add_sub_cancel_left, isBoundary]
      rw [isBoundary, hgap, hend]
      cases hpiece : splitAtByte token.length back with
      | none => simp [Option.bind, hpiece]
      | some cut =>
        rw [hpiece] at hend
        have hle := isBoundary_le hend
        rw [decide_eq_false (Nat.not_lt.2 hle)]
        simp [hpiece]

namespace Template

/-- Slices that start where the text has been written up to agree with cuts of the rest. -/
theorem renderSlices_eq {text : String} (s : Substitution) {before rest : List Char}
    (htext : text.toList = before ++ rest) (written : List Char) (tokens : List Token) :
    renderSlices text s (byteLength before) written tokens =
      routed (renderFrom text s (byteLength before) rest written tokens) := by
  induction tokens generalizing before rest written with
  | nil =>
    have hslice : slice text.toList (byteLength before) (byteLength text.toList) = .ok rest := by
      refine slice_eq before [] ?_ rfl ?_
      · rw [htext, List.append_nil]
      · rw [htext, byteLength_append]
    rw [renderSlices, hslice]
    rfl
  | cons token tokens ih =>
    rw [renderSlices, renderFrom, htext, misplaced_eq, ← htext]
    rcases hcut : cutToken (byteLength before) rest token with _ | ⟨gap, piece, after⟩
    · rfl
    · obtain ⟨rfl, hoffset, hlength⟩ := cutToken_eq_some hcut
      have hrest : text.toList = before ++ gap ++ piece ++ after := by
        rw [htext]
        simp only [List.append_assoc]
      have hgap : slice text.toList (byteLength before) token.offset = .ok gap := by
        refine slice_eq before (piece ++ after) ?_ rfl hoffset
        rw [hrest, List.append_assoc]
      have hpiece : slice text.toList token.offset token.stop = .ok piece := by
        refine slice_eq (before ++ gap) after hrest ?_ ?_
        · rw [byteLength_append, hoffset]
        · rw [hlength, Token.stop]
      have hstop : byteLength (before ++ gap ++ piece) = token.stop := by
        rw [byteLength_append, byteLength_append, hoffset, hlength, Token.stop]
      rw [Option.isNone_some, if_neg Bool.false_ne_true, hgap, hpiece]
      show (routed (s.apply token (written ++ gap) piece) >>= fun written =>
        renderSlices text s token.stop written tokens) = routed _
      rw [routed_bind]
      refine bind_congr fun written => ?_
      rw [← hstop, ih hrest]

theorem renderStrictly_eq (t : Template) (s : Substitution) :
    t.renderStrictly s = routed (t.render s) := by
  have hslices := renderSlices_eq s (List.nil_append t.text.toList).symm [] t.tokens
  rw [byteLength_nil] at hslices
  rw [renderStrictly, render, routed_bind, hslices]
  rfl

end Template

end Sharding.Sql
