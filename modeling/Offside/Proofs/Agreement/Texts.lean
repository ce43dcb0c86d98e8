import Offside.Proofs.Agreement.Report
import Offside.Proofs.SetIndentation

/-!
# Texts that agree above a line

Texts that are the same up to the start of a line have the same rows above it.  So two documents
with such texts report the same of that line, as long as it holds the same text after its
indentation.

* `Text.eq_of_flatten_eq`: full rows are told by the text that they join to;
* `AgreeAbove.of_takeBytes`, `AgreeAbove.of_isPrefix`: documents with the same text above a line;
* `report_comes_from_above`.
-/

namespace Offside

open Text (size)

namespace Text

/-- Full rows are told by the text that they join to. -/
theorem eq_of_flatten_eq {rs ss : List Text} (hrs : ∀ r ∈ rs, IsFullRow r)
    (hss : ∀ s ∈ ss, IsFullRow s) (h : rs.flatten = ss.flatten) : rs = ss := by
  have hr := rows_flatten_append hrs []
  have hs := rows_flatten_append hss []
  rw [h, hs] at hr
  exact (List.append_cancel_right hr).symm

end Text

namespace Document

variable {d : Document} {above below : List Text} {row : Text}

/-- What stands before the start of a line are the rows above it. -/
theorem takeBytes_lineStart (h : d.text.rows = above ++ row :: below) :
    d.text.takeBytes (d.buffer.lineStart (above.length + 1)) = above.flatten := by
  rw [Buffer.lineStart_of_rows h, Text.eq_flatten_of_rows h, Text.takeBytes_size]

/-- What stands before the end of a line, its terminator included, are the rows down to it. -/
theorem takeBytes_nextLineStart (h : d.text.rows = above ++ row :: below) :
    d.text.takeBytes (d.buffer.nextLineStart (above.length + 1)) = above.flatten ++ row := by
  rw [Buffer.nextLineStart_of_rows h, Text.eq_flatten_of_rows h, ← List.append_assoc,
    ← Text.size_append, Text.takeBytes_size]

end Document

namespace AgreeAbove

variable {d e : Document} {line : Nat}

/-- Documents whose texts are the same up to the start of a line agree above it. -/
theorem of_takeBytes (hs : d.settings = e.settings) (hone : 1 ≤ line) (hd : line ≤ d.lineCount)
    (he : line ≤ e.lineCount) (htext : d.text.takeBytes (d.buffer.lineStart line) =
      e.text.takeBytes (e.buffer.lineStart line)) : AgreeAbove d e line := by
  obtain ⟨above, row, below, hrows, hline⟩ := Buffer.exists_rows (b := d.buffer) hone hd
  obtain ⟨above', row', below', hrows', hline'⟩ := Buffer.exists_rows (b := e.buffer) hone he
  rw [hline, Document.takeBytes_lineStart hrows, ← hline, hline',
    Document.takeBytes_lineStart hrows'] at htext
  obtain rfl := Text.eq_of_flatten_eq (Text.isFullRow_of_rows hrows)
    (Text.isFullRow_of_rows hrows') htext
  rw [hline]
  exact of_rows hrows hrows' (by rw [d.tabWidth_eq, e.tabWidth_eq, hs])

/-- Documents whose texts are the same down to the end of a line that has a terminator agree above
it, and the line holds the same text in both. -/
theorem of_isPrefix (hs : d.settings = e.settings) (hone : 1 ≤ line) (hd : line < d.lineCount)
    (htext : d.text.takeBytes (d.buffer.nextLineStart line) <+: e.text) :
    AgreeAbove d e line ∧ d.buffer.lineText line = e.buffer.lineText line := by
  obtain ⟨above, row, between, row', below, hrows, rfl, hline⟩ :=
    Buffer.exists_rows_of_lt (b := d.buffer) hone (Nat.lt_succ_self line) hd
  -- the row of the line is full, so whatever follows it starts another row
  have hrows' : d.buffer.text.rows = (above ++ row :: between) ++ row' :: below := by
    simpa using hrows
  have hfull : ∀ r ∈ above ++ [row], Text.IsFullRow r := fun r hr =>
    Text.isFullRow_of_rows hrows' r (by
      rcases List.mem_append.1 hr with hr | hr
      · exact List.mem_append_left _ hr
      · exact List.mem_append_right _ (by simp [List.mem_singleton.1 hr]))
  obtain ⟨rest, hrest⟩ := htext
  rw [Document.takeBytes_nextLineStart hrows] at hrest
  have hjoin : e.text = (above ++ [row]).flatten ++ rest := by
    rw [← hrest]
    simp
  have he : e.text.rows = above ++ row :: Text.rows rest := by
    rw [hjoin, Text.rows_flatten_append hfull]
    simp
  refine ⟨of_rows hrows he (by rw [d.tabWidth_eq, e.tabWidth_eq, hs]), ?_⟩
  rw [Buffer.lineText, Buffer.lineText, Buffer.line_of_rows hrows, Buffer.line_of_rows he]

end AgreeAbove

/-- Giving a line other indentation changes nothing above it, and nothing after its indentation. -/
theorem Document.agreeAbove_setIndentation {d : Document} {line : Nat}
    (hline : 1 ≤ line ∧ line ≤ d.lineCount) (column : Nat) :
    ∃ changed d', d.setIndentation line column = .ok (changed, d') ∧ d'.settings = d.settings ∧
      AgreeAbove d' d line ∧ (d'.buffer.lineText line).afterIndentation =
        (d.buffer.lineText line).afterIndentation := by
  obtain ⟨above, row, below, hrows, rfl⟩ := Buffer.exists_rows (b := d.buffer) hline.1 hline.2
  obtain ⟨d', hset, hrows', hsettings, -⟩ := setIndentation_of_rows hrows column
  have htab : d'.buffer.tabWidth = d.buffer.tabWidth := by
    rw [d'.tabWidth_eq, d.tabWidth_eq, hsettings]
  refine ⟨_, d', hset, hsettings, AgreeAbove.of_rows hrows' hrows htab, ?_⟩
  rw [Buffer.lineText, Buffer.lineText, Buffer.line_of_rows hrows', Buffer.line_of_rows hrows,
    Line.afterIndentation_body_ofRow, Line.afterIndentation_body_ofRow,
    Text.afterIndentation_append (d.isIndentation_written column),
    Text.afterIndentation_afterIndentation]

/-- **The indentation of a line comes from above it.**  Take two documents with the same settings
that both have some line.  If their texts are the same up to the start of the line, and the line
holds the same text after its indentation, then its status, the anchor of the status and the column
that it should have are the same.  So nothing that stands below a line matters, and neither does the
indentation that it has: whatever column the line is put at, the one computed for it included, the
same is computed for it again. -/
theorem report_comes_from_above :
    (∀ (d e : Document) (line : Nat), d.settings = e.settings →
      1 ≤ line → line ≤ d.lineCount → line ≤ e.lineCount →
      d.text.takeBytes (d.buffer.lineStart line) = e.text.takeBytes (e.buffer.lineStart line) →
      (d.buffer.lineText line).afterIndentation = (e.buffer.lineText line).afterIndentation →
      d.report line = e.report line) ∧
    (∀ (d e : Document) (line : Nat), d.settings = e.settings → 1 ≤ line → line < d.lineCount →
      d.text.takeBytes (d.buffer.nextLineStart line) <+: e.text →
      d.report line = e.report line) ∧
    (∀ (d : Document) (line column : Nat), 1 ≤ line → line ≤ d.lineCount →
      ∃ changed d', d.setIndentation line column = .ok (changed, d') ∧
        d'.report line = d.report line) := by
  refine ⟨fun d e line hs hone hd he habove hown => ?_, fun d e line hs hone hd htext => ?_,
    fun d line column hone hd => ?_⟩
  · exact (AgreeAbove.of_takeBytes hs hone hd he habove).report_eq hs
      (Text.trimStart_of_afterIndentation hown)
  · obtain ⟨hagree, hown⟩ := AgreeAbove.of_isPrefix hs hone hd htext
    exact hagree.report_eq hs (congrArg Text.trimStart hown)
  · obtain ⟨changed, d', hset, hsettings, hagree, hown⟩ :=
      Document.agreeAbove_setIndentation ⟨hone, hd⟩ column
    exact ⟨changed, d', hset,
      hagree.report_eq hsettings (Text.trimStart_of_afterIndentation hown)⟩

/-- Two texts that differ in the indentation of a closing bracket and in all that follows it. -/
theorem report_comes_from_above_at_bracket :
    (Document.ofText "f(a,\n      [\n  ])\nx = '".toList).report 3 = ⟨3, .insideParen 11, 6⟩ ∧
    (Document.ofText "f(a,\n      [\n  ])\nx = '".toList).report 3 =
      (Document.ofText "f(a,\n      [\n\t])".toList).report 3 :=
  ⟨by decide +kernel, report_comes_from_above.1 _ _ 3 rfl (by decide +kernel) (by decide +kernel)
    (by decide +kernel) (by decide +kernel) (by decide +kernel)⟩

end Offside
