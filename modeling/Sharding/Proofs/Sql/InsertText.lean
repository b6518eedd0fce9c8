import Sharding.Proofs.Sql.Values
import Sharding.Route.Insert

/-!
# Reading physical inserts back

No value changes the structure of a physical insert.  What is written for an operand is one value
(`Operand.isValue_segments`), so the rows of a physical insert are read back from its text, and so
is each text that stands in it (`insertText_reads_back`).
-/

namespace Sharding

/-! ## What stands for operands -/

/-- The segments of a datum's literal. -/
def Datum.segments : Datum → List Sql.Segment
  | text s => [.literal s.toList]
  | timestamp micros => [.literal (Calendar.instantText micros.toInt).toList]
  | date days => [.literal (Calendar.dayText days.toInt).toList]
  | bytea bytes => [.outside 'X', .literal (hexText bytes).toList]
  | other => other.literal.toList.map .outside

/-- The segments of an operand's text in a physical insert. -/
def Operand.segments : Operand → List Sql.Segment
  | .parameter _ => [.outside '?']
  | .literal d => d.segments

namespace Datum

/-- The segments of a literal make up its text. -/
theorem flatMap_text_segments (d : Datum) :
    d.segments.flatMap Sql.Segment.text = d.literal.toList := by
  -- a text with nothing to double stands between quotes as it is
  have hplain : ∀ cs, '\'' ∉ cs → [Sql.Segment.literal cs].flatMap Sql.Segment.text =
      '\'' :: (cs ++ ['\'']) := by
    intro cs hcs
    rw [List.flatMap_singleton, Sql.Segment.text, doubleQuotes_of_not_mem hcs]
    rfl
  cases d with
  | text s =>
    rw [segments, List.flatMap_singleton, literal, quoted, String.toList_ofList]
    rfl
  | timestamp micros =>
    rw [segments, hplain _ (Calendar.quote_not_mem_instantText _), literal, String.toList_append,
      String.toList_append]
    rfl
  | date days =>
    rw [segments, hplain _ (Calendar.quote_not_mem_dayText _), literal, String.toList_append,
      String.toList_append]
    rfl
  | bytea bytes =>
    rw [segments, List.flatMap_cons, hplain _ (bare_hexText bytes).quote_not_mem, literal,
      String.toList_append, String.toList_append]
    rfl
  | _ => exact Sql.flatMap_text_outside _

theorem isValue_segments (d : Datum) : Sql.IsValue d.segments := by
  cases d with
  | null => exact Sql.isValue_bare (by decide) (by decide)
  | boolean b => cases b <;> exact Sql.isValue_bare (by decide) (by decide)
  | int32 n => exact Sql.isValue_bare (intText_ne_nil _) (bare_intText _)
  | int64 n => exact Sql.isValue_bare (intText_ne_nil _) (bare_intText _)
  | float64 x => exact Sql.isValue_bare (floatText_ne_nil x.value) (bare_floatText x.value)
  | decimal d => exact Sql.isValue_bare d.text_ne_nil d.bare_text
  | text s => exact Sql.isValue_literal _
  | timestamp micros => exact Sql.isValue_literal _
  | date days => exact Sql.isValue_literal _
  | bytea bytes =>
    have hliteral := Sql.isValue_literal (hexText bytes).toList
    exact ⟨List.cons_ne_nil _ _,
      List.forall_mem_cons.2 ⟨Sql.inner_of_isBare (by decide), hliteral.inner⟩,
      by decide, hliteral.apart⟩

end Datum

namespace Operand

theorem flatMap_text_segments (o : Operand) :
    o.segments.flatMap Sql.Segment.text = o.insertText.toList := by
  cases o with
  | parameter index =>
    show ['?'] = "?".toList
    decide
  | literal d => exact d.flatMap_text_segments

theorem isValue_segments (o : Operand) : Sql.IsValue o.segments := by
  cases o with
  | literal d => exact d.isValue_segments
  | parameter index =>
    refine ⟨List.cons_ne_nil _ _, fun s hs => ?_, by decide, trivial⟩
    rw [List.mem_singleton.1 hs]
    exact ⟨by decide, by decide, by decide, by decide⟩

end Operand

/-! ## Inserts -/

namespace Sql

/-- The rows of an insert, written as segments. -/
theorem flatMap_text_rows (rows : List (List Operand)) :
    (rowsSegments (rows.map (·.map Operand.segments))).flatMap Segment.text =
      (", ".intercalate (rows.map fun row =>
        "(" ++ ", ".intercalate (row.map Operand.insertText) ++ ")")).toList := by
  have hrow : ∀ row : List Operand,
      (rowSegments (row.map Operand.segments)).flatMap Segment.text =
        ("(" ++ ", ".intercalate (row.map Operand.insertText) ++ ")").toList := by
    intro row
    have hvalues : row.map ((·.flatMap Segment.text) ∘ Operand.segments) =
        row.map (String.toList ∘ Operand.insertText) :=
      List.map_congr_left fun o _ => o.flatMap_text_segments
    rw [rowSegments, List.flatMap_cons, List.flatMap_append, flatMap_text_intercalate, List.map_map,
      hvalues, String.toList_append, String.toList_append, String.toList_intercalate, List.map_map]
    rfl
  have hrows : rows.map (((·.flatMap Segment.text) ∘ rowSegments) ∘ (·.map Operand.segments)) =
      rows.map (String.toList ∘ fun row =>
        "(" ++ ", ".intercalate (row.map Operand.insertText) ++ ")") :=
    List.map_congr_left fun row _ => hrow row
  rw [rowsSegments, flatMap_text_intercalate, List.map_map, List.map_map, hrows,
    String.toList_intercalate, List.map_map]
  rfl

/-- What stands behind the word `VALUES` of a physical insert is read back as its rows of value
texts, whatever the values are, and a text between quotes is read back as the text itself. -/
theorem insertText_reads_back (table : String) (columns : List String)
    (rows : List (List Operand)) :
    (∃ part, insertText table columns (rows.map (·.map Operand.insertText)) =
        "INSERT INTO " ++ table ++ " (" ++ ", ".intercalate columns ++ ") VALUES " ++ part ∧
      readValues? part = some (rows.map (·.map Operand.insertText))) ∧
    ∀ s, unquote? (Datum.text s).literal = some s := by
  have hvalue : ∀ row ∈ rows.map (·.map Operand.segments), ∀ value ∈ row, IsValue value := by
    intro row hrow value hmem
    obtain ⟨operands, -, rfl⟩ := List.mem_map.1 hrow
    obtain ⟨o, -, rfl⟩ := List.mem_map.1 hmem
    exact o.isValue_segments
  have htext : ∀ o : Operand, String.ofList (o.segments.flatMap Segment.text) = o.insertText := by
    intro o
    rw [o.flatMap_text_segments, String.ofList_toList]
  refine ⟨⟨", ".intercalate (rows.map fun row =>
    "(" ++ ", ".intercalate (row.map Operand.insertText) ++ ")"), ?_, ?_⟩, fun s => ?_⟩
  · delta insertText
    rw [List.map_map]
    rfl
  · rw [readValues?, ← flatMap_text_rows, readSegments_of_apart (apart_rows hvalue)]
    show (readRows (.front true) _).bind _ = _
    rw [readRows_rows hvalue]
    simp only [Option.bind_some, List.map_map, Function.comp_def, htext]
    rfl
  · have hread : readSegments? (Datum.text s).literal.toList = some [.literal s.toList] := by
      rw [← Datum.flatMap_text_segments]
      exact readSegments_of_apart (isValue_literal _).apart
    rw [unquote?, hread]
    exact congrArg some String.ofList_toList

/-- Quotes at either end of a text, and separators inside of it. -/
example : readValues? ("(" ++ (Datum.text "'), ('").literal ++ ", ?)") =
    some [[(Datum.text "'), ('").literal, "?"]] := by
  decide

end Sql

end Sharding
