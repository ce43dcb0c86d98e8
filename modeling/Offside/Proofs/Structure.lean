import Offside.Proofs.Adjustment
import Offside.Proofs.Lexical.Places

/-!
# Indentation and structure

Operations that change indentation change nothing else that is seen in a text: its lines continue,
form statements and begin blocks as before, and at the start of every line the scanner is in the
same state, with the offsets that it has recorded moved along with the characters there.

* `SamePlace`: offsets of the same character after the indentation of the same line;
* `SameOutline.aligned_lineStart`: the scanner at the start of a line;
* `adjust_keeps_structure`.
-/

namespace Offside

open Lexical
open Text (size)

/-- Offsets in two documents at which the same character of the same line stands, counted from the
end of the indentation. -/
def SamePlace (d e : Document) (o o' : Nat) : Prop :=
  ∃ line k, (1 ≤ line ∧ line ≤ d.lineCount) ∧ k < size (d.buffer.lineText line).afterIndentation ∧
    o = d.buffer.indentationEnd line + k ∧ o' = e.buffer.indentationEnd line + k

variable {d e : Document}

theorem samePlace_of_rows {above below above' below' : List Text} {row row' : Text}
    (hd : d.text.rows = above ++ row :: below) (he : e.text.rows = above' ++ row' :: below')
    (hlength : above.length = above'.length) {k : Nat}
    (hk : k < size (Line.ofRow 0 row.afterIndentation).body) :
    SamePlace d e (size above.flatten + size row.indentation + k)
      (size above'.flatten + size row'.indentation + k) := by
  refine ⟨above.length + 1, k, ⟨by omega, Buffer.length_le_lineCount hd⟩, ?_, ?_, ?_⟩
  · rwa [Buffer.lineText, Buffer.line_of_rows hd, Line.afterIndentation_body_ofRow]
  · rw [Buffer.indentationEnd_of_rows hd]
  · rw [hlength, Buffer.indentationEnd_of_rows he]

/-- At the start of a line the states are the same, with the same places recorded. -/
theorem SameOutline.aligned_lineStart (h : SameOutline d e) (m : Nat) :
    (d.lineStartState m).Aligned (SamePlace d e) (e.lineStartState m) := by
  rw [d.lineStartState_clampLine, e.lineStartState_clampLine, ← h.clampLine_eq]
  obtain ⟨above, row, below, above', row', below', hd, he, hl, ha, -, -⟩ :=
    h.exists_rows (d.buffer.clampLine_mem m).1 (d.buffer.clampLine_mem m).2
  have hlength : above.length = above'.length := by simpa using congrArg List.length ha
  rw [hl, Document.lineStartState_of_rows hd, hlength, Document.lineStartState_of_rows he]
  refine (Scanner.Aligned.rows .init Reached.init Reached.init rfl nofun nofun ha
    (Text.isFullRow_of_rows hd) ?_ _ _).state
  intro pre r post pre' r' post' hpre hpre' hlen k hk
  rw [hpre, List.append_assoc, List.cons_append] at hd
  rw [hpre', List.append_assoc, List.cons_append] at he
  simpa using samePlace_of_rows hd he hlen hk

/-- **Changing indentation never changes structure.**  After an operation that changes indentation
there are as many lines as before, and each of them has the same text after its indentation.  The
state at its start has the same brackets open and is in the same string, all of which begin at the
same characters as before.  The line ends in a backslash, is continued, is blank or a comment,
belongs to a statement from one line to another and is a block header with some keyword exactly as
before. -/
theorem adjust_keeps_structure {d' : Document} {a : Adjustment} (h : d.adjust a = .ok d') :
    d'.lineCount = d.lineCount ∧
    ∀ line,
      (d'.buffer.lineText line).afterIndentation = (d.buffer.lineText line).afterIndentation ∧
      (d.lineStartState line).Aligned (SamePlace d d') (d'.lineStartState line) ∧
      d'.endsBackslash line = d.endsBackslash line ∧
      d'.continuation line = d.continuation line ∧
      d'.statementStart line = d.statementStart line ∧
      d'.statementEnd line = d.statementEnd line ∧
      d'.buffer.isBlank line = d.buffer.isBlank line ∧
      d'.isBlankOrComment line = d.isBlankOrComment line ∧
      blockKeyword? (d'.buffer.lineText line) = blockKeyword? (d.buffer.lineText line) ∧
      d'.isBlockHeader line = d.isBlockHeader line := by
  have hsame := Document.sameOutline_adjust h
  have hback := hsame.symm
  refine ⟨hback.lineCount_eq, fun line => ?_⟩
  exact ⟨hback.afterIndentation_eq line, hsame.aligned_lineStart line, hback.endsBackslash_eq line,
    hback.continuation_eq line, hback.statementStart_eq line, hback.statementEnd_eq line,
    hback.isBlank_eq line, hback.isBlankOrComment_eq line, hback.blockKeyword?_eq line,
    hback.isBlockHeader_eq line⟩

/-- A line that starts in a string within brackets, both of which begin on the line that is moved. -/
theorem adjust_keeps_structure_in_string :
    ∃ d', (Document.ofText "f('''\na''',\r\n b)".toList).adjust (.setIndentation 1 2) = .ok d' ∧
      d'.text = "  f('''\na''',\r\n b)".toList ∧ d'.lineCount = 3 ∧ d'.statementEnd 1 = 3 ∧
      ((Document.ofText "f('''\na''',\r\n b)".toList).lineStartState 2).Aligned
        (SamePlace (Document.ofText "f('''\na''',\r\n b)".toList) d') (d'.lineStartState 2) := by
  have htext : ((Document.ofText "f('''\na''',\r\n b)".toList).adjust (.setIndentation 1 2)).map
      Document.text = .ok "  f('''\na''',\r\n b)".toList := by decide +kernel
  cases h : (Document.ofText "f('''\na''',\r\n b)".toList).adjust (.setIndentation 1 2) with
  | error err =>
    rw [h] at htext
    cases htext
  | ok d' =>
    obtain ⟨hcount, hlines⟩ := adjust_keeps_structure h
    rw [h] at htext
    refine ⟨d', rfl, Except.ok.inj htext, ?_, ?_, (hlines 2).2.1⟩
    · rw [hcount]
      decide
    · rw [(hlines 1).2.2.2.2.2.1]
      decide

end Offside
