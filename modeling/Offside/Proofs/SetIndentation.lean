import Offside.Region
import Offside.Proofs.Edit
import Offside.Proofs.Text.Indentation

/-!
# Setting the indentation of a line

Setting the indentation of an existing line never fails.  It replaces the leading run of one row by
written indentation of the width that was asked for, and leaves the rest of that row and all others
as they are.

* `Document.setIndentation_of_rows`: the rows after it;
* `Buffer.indentation_of_rows`, `Document.indentation_written`: the width that the line has then.
-/

namespace Offside

open Text (size)

theorem Buffer.indentation_of_rows {b : Buffer} {above below : List Text} {row : Text}
    (h : b.text.rows = above ++ row :: below) :
    b.indentation (above.length + 1) = row.indentation.displayWidth b.tabWidth := by
  rw [indentation, line_of_rows h, Line.indentation, Line.indentation_body_ofRow]

theorem Buffer.indentationEnd_of_rows {b : Buffer} {above below : List Text} {row : Text}
    (h : b.text.rows = above ++ row :: below) :
    b.indentationEnd (above.length + 1) =
      Text.size above.flatten + Text.size row.indentation := by
  rw [indentationEnd, line_of_rows h, Line.indentationEnd, Line.ofRow_start,
    Line.indentation_body_ofRow]

namespace Document

/-- The indentation that a document writes for a width. -/
def written (d : Document) (column : Nat) : Text :=
  indentString column d.settings.useTabs d.settings.tabWidth

theorem isIndentation_written (d : Document) (column : Nat) :
    Text.IsIndentation (d.written column) :=
  Text.isIndentation_indentString _ _ _

theorem displayWidth_written (d : Document) (column : Nat) :
    (d.written column).displayWidth d.buffer.tabWidth = column := by
  rw [d.tabWidth_eq, written, Text.displayWidth_indentString]

variable {d : Document} {above below : List Text} {row : Text}

/-- Setting the indentation of a line replaces that of its row.  It is a change exactly if the row
had other indentation; then the revision grows, and otherwise the document stays as it is. -/
theorem setIndentation_of_rows (h : d.text.rows = above ++ row :: below) (column : Nat) :
    ∃ d', d.setIndentation (above.length + 1) column =
        .ok (decide (row.indentation ≠ d.written column), d') ∧
      d'.text.rows = above ++ (d.written column ++ row.afterIndentation) :: below ∧
      d'.settings = d.settings ∧ (row.indentation = d.written column → d' = d) ∧
      (row.indentation ≠ d.written column → d'.revision = d.revision + 1) := by
  have hline : d.buffer.hasLine (above.length + 1) = true :=
    Buffer.hasLine_iff.2 ⟨by omega, Buffer.length_le_lineCount h⟩
  have htext : d.text = above.flatten ++
      (row.indentation ++ (row.afterIndentation ++ below.flatten)) := by
    rw [Text.eq_flatten_of_rows h, ← List.append_assoc row.indentation,
      Text.indentation_append_afterIndentation]
  obtain ⟨d', happly, htext', hsettings, hsame, hrevision⟩ :=
    apply_single (e := d.indentationEdit (above.length + 1) column) htext
      (Buffer.lineStart_of_rows h) (Buffer.indentationEnd_of_rows h)
  refine ⟨d', ?_, ?_, hsettings, hsame, hrevision⟩
  · have hcount : decide (0 < if row.indentation = d.written column then 0 else 1) =
        decide (row.indentation ≠ d.written column) := by
      by_cases hw : row.indentation = d.written column <;> simp [hw]
    rw [setIndentation, checkLine, if_pos hline]
    show (d.apply [d.indentationEdit (above.length + 1) column] >>= fun r =>
      pure (decide (0 < r.1), r.2)) = _
    rw [happly, ← hcount]
    rfl
  · rw [htext', ← List.append_assoc (d.indentationEdit _ column).text]
    exact Text.rows_replace h (Text.isFullRow_indent (d.isIndentation_written column))
      (Text.not_mem_newline_indent (d.isIndentation_written column))

/-- A row with written indentation has the width that was asked for. -/
theorem indentation_written {d' : Document} {column : Nat}
    (h : d'.text.rows = above ++ (d.written column ++ row.afterIndentation) :: below)
    (hs : d'.settings = d.settings) : d'.buffer.indentation (above.length + 1) = column := by
  have hwritten : d.written column = d'.written column := by rw [written, written, hs]
  rw [Buffer.indentation_of_rows h, Text.indentation_append (d.isIndentation_written column),
    Text.indentation_afterIndentation, List.append_nil, hwritten, displayWidth_written]

end Document

end Offside
