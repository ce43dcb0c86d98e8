import Offside.Region
import Offside.Proofs.Agreement.Status
import Offside.Proofs.Anchors

/-!
# The indentation of a line comes from above

The column of a line depends on the rows above it, on the settings, and on the line's own text after
its leading white space.  Each rule measures from an anchor above the line and does not leave the
line of that anchor.

* `AgreeAbove.insideParenColumn_eq`, `afterBackslashColumn_eq`, `afterLineColumn_eq`: the rules;
* `AgreeAbove.report_eq`: the status of a line and its column.
-/

namespace Offside

open Lexical
open Text (size)

/-! ### What is read off the line itself -/

theorem Text.startsTrimmedWith_congr {s t : Text} (h : s.trimStart = t.trimStart) (cs : List Char) :
    s.startsTrimmedWith cs = t.startsTrimmedWith cs := by
  rw [startsTrimmedWith, startsTrimmedWith, h]

theorem DedentKeyword.atLineStart?_congr {s t : Text} (h : s.trimStart = t.trimStart)
    (enabled : List DedentKeyword) : atLineStart? enabled s = atLineStart? enabled t := by
  rw [atLineStart?, atLineStart?, h]

theorem Buffer.indentationEnd_le (b : Buffer) (line : Nat) :
    b.indentationEnd line ≤ b.lineEnd line := by
  have hsize := congrArg Text.size (b.line line).body.indentation_append_afterIndentation
  rw [Text.size_append] at hsize
  rw [indentationEnd, lineEnd, Line.indentationEnd, Line.stop]
  omega

namespace AgreeAbove

variable {d e : Document} {line m : Nat}

theorem indentationEnd_lt (h : AgreeAbove d e line) (hm : 1 ≤ m) (hlt : m < line) :
    d.buffer.indentationEnd m < d.buffer.lineStart line :=
  Nat.lt_of_le_of_lt (d.buffer.indentationEnd_le m) (h.lineEnd_lt hm hlt)

/-- Columns within a line above are the same. -/
theorem column_eq_of_le (h : AgreeAbove d e line) (hm : 1 ≤ m) (hlt : m < line) {offset : Nat}
    (ho : offset ≤ d.buffer.lineEnd m) : d.buffer.column offset = e.buffer.column offset :=
  h.column_eq (Nat.lt_of_le_of_lt ho (h.lineEnd_lt hm hlt))

theorem lineStart_eq_of_le (h : AgreeAbove d e line) (hm : 1 ≤ m) (hle : m ≤ line) :
    d.buffer.lineStart m = e.buffer.lineStart m :=
  (h.mono hm hle).lineStart_eq

/-! ### After a line, and in brackets -/

theorem afterLineColumn_eq (h : AgreeAbove d e line) (hs : d.settings = e.settings)
    (htrim : (d.buffer.lineText line).trimStart = (e.buffer.lineText line).trimStart)
    {previous : Nat} (hp : previous < d.buffer.lineStart line) :
    d.afterLineColumn line previous = e.afterLineColumn line previous := by
  rw [Document.afterLineColumn, Document.afterLineColumn, h.indentationAt_eq hp, hs,
    DedentKeyword.atLineStart?_congr htrim, Document.indentUnit, Document.indentUnit, hs]

theorem insideParenColumn_eq (h : AgreeAbove d e line) (hs : d.settings = e.settings)
    (htrim : (d.buffer.lineText line).trimStart = (e.buffer.lineText line).trimStart)
    {bracket : Nat} (hb : (d.lineStartState line).innermostParen? = some bracket) :
    d.insideParenColumn line bracket = e.insideParenColumn line bracket := by
  obtain ⟨hopen, hlo, hhi⟩ := h.lineOfOffset_eq (Document.bracket_lt hb)
  have hafter := Document.afterBracket_le hb
  -- the column of what follows the bracket is asked for within the bracket's own line
  have hcolumn := h.column_eq_of_le hlo hhi (show bracket + 1 +
    (size ((d.buffer.lineText (d.buffer.lineOfOffset bracket)).dropBytes
        (bracket + 1 - d.buffer.lineStart (d.buffer.lineOfOffset bracket))) -
      size ((d.buffer.lineText (d.buffer.lineOfOffset bracket)).dropBytes
        (bracket + 1 - d.buffer.lineStart (d.buffer.lineOfOffset bracket))).trimStart) ≤
      d.buffer.lineEnd (d.buffer.lineOfOffset bracket) by omega)
  simp only [Document.insideParenColumn, ← hopen, ← h.lineText_eq hlo hhi, ← h.indentation_eq hlo hhi,
    ← h.lineStart_eq_of_le hlo (Nat.le_of_lt hhi), ← h.lineStartState_eq,
    ← h.lineStartState_eq_of_le hlo (Nat.le_of_lt hhi), ← hcolumn,
    Text.startsTrimmedWith_congr htrim, Document.indentUnit, hs]

/-! ### After a backslash -/

theorem lastDot?_eq (h : AgreeAbove d e line) (hm : 1 ≤ m) (hlt : m < line) :
    d.lastDot? m = e.lastDot? m := by
  have hend : d.buffer.lineEnd m = e.buffer.lineEnd m := by
    rw [Buffer.lineEnd, Buffer.lineEnd, h.line_eq hm hlt]
  have hle : d.statementStart m ≤ m :=
    Document.statementStart_le hm (Nat.le_trans (Nat.le_of_lt hlt) h.le_left)
  rw [Document.lastDot?, Document.lastDot?, ← h.statementStart_eq hm (Nat.le_of_lt hlt), ← hend,
    h.codeCharsOfLines_eq (d.one_le_statementStart m) (by omega)
      (Nat.le_of_lt (h.lineEnd_lt hm hlt))]

theorem dotColumn_eq (h : AgreeAbove d e line) (hs : d.settings = e.settings) (hm : 1 ≤ m)
    (hlt : m < line) : d.dotColumn m = e.dotColumn m := by
  rw [Document.dotColumn, Document.dotColumn, ← h.lastDot?_eq hm hlt]
  cases hdot : d.lastDot? m with
  | some dot => exact h.column_eq_of_le hm hlt (Nat.le_of_lt (Document.lastDot?_lt hdot))
  | none =>
    dsimp only
    rw [h.indentation_eq hm hlt, Document.indentUnit, Document.indentUnit, hs]

theorem statementStart_cases (h : AgreeAbove d e line) :
    d.statementStart line = line ∨ d.statementStart line < line := by
  have := Document.statementStart_le h.one_le h.le_left
  omega

theorem blockContinuation?_eq (h : AgreeAbove d e line) :
    d.blockContinuation? line = e.blockContinuation? line := by
  simp only [Document.blockContinuation?, ← h.statementStart_eq h.one_le (Nat.le_refl _)]
  rcases h.statementStart_cases with hstart | hlt
  · simp only [hstart, ne_eq, not_true_eq_false, false_and, if_false]
  · rw [h.lineText_eq (d.one_le_statementStart line) hlt,
      h.indentationEnd_eq (d.one_le_statementStart line) hlt]

theorem assignmentContinuation?_eq (h : AgreeAbove d e line) :
    d.assignmentContinuation? line = e.assignmentContinuation? line := by
  simp only [Document.assignmentContinuation?, ← h.statementStart_eq h.one_le (Nat.le_refl _)]
  rcases h.statementStart_cases with hstart | hlt
  · simp only [hstart, ne_eq, not_true_eq_false, false_and, if_false]
  · have hlo := d.one_le_statementStart line
    have hstop : (d.buffer.line (d.statementStart line)).stop ≤ d.buffer.lineStart line :=
      Nat.le_of_lt (h.lineEnd_lt hlo hlt)
    rw [h.codeCharsOfLines_eq hlo hlt hstop, h.line_eq hlo hlt]

theorem blockContinuation?_lt (h : AgreeAbove d e line) {header : Nat}
    (hh : d.blockContinuation? line = some header) : header < d.buffer.lineStart line := by
  unfold Document.blockContinuation? at hh
  dsimp only at hh
  split at hh
  · next hcond =>
    cases hh
    exact h.indentationEnd_lt (d.one_le_statementStart line)
      (h.statementStart_cases.resolve_left hcond.1)
  · cases hh

theorem headerColumn?_eq (h : AgreeAbove d e line) :
    d.headerColumn? line = e.headerColumn? line := by
  simp only [Document.headerColumn?, ← h.blockContinuation?_eq]
  cases hheader : d.blockContinuation? line with
  | none => rfl
  | some header =>
    obtain ⟨heq, hlo, hhi⟩ := h.lineOfOffset_eq (h.blockContinuation?_lt hheader)
    simp only [Option.bind_eq_bind, Option.bind_some, ← heq, ← h.lineText_eq hlo hhi,
      ← h.lineStart_eq_of_le hlo (Nat.le_of_lt hhi)]
    cases hkeyword : blockKeywordEnd? (d.buffer.lineText (d.buffer.lineOfOffset header)) with
    | none => rfl
    | some keyword =>
      have hle : d.buffer.lineStart (d.buffer.lineOfOffset header) + keyword.2 ≤
          d.buffer.lineEnd (d.buffer.lineOfOffset header) :=
        Nat.add_le_add_left (blockKeywordEnd?_le hkeyword) _
      simp only [Option.bind_some, h.column_eq_of_le hlo hhi hle]

theorem firstBackslashColumn_eq (h : AgreeAbove d e line) (hs : d.settings = e.settings)
    (hm : 1 ≤ m) (hlt : m < line) {anchor : Nat} (ha : anchor < d.buffer.lineStart line) :
    d.firstBackslashColumn m anchor = e.firstBackslashColumn m anchor := by
  obtain ⟨heq, hlo, hhi⟩ := h.lineOfOffset_eq ha
  simp only [Document.firstBackslashColumn, ← heq, ← h.lineText_eq hlo hhi,
    ← h.lineStart_eq_of_le hlo (Nat.le_of_lt hhi)]
  cases haligned : alignedKeywordEnd? (d.buffer.lineText (d.buffer.lineOfOffset anchor)) with
  | some stop =>
    exact h.column_eq_of_le hlo hhi (Nat.add_le_add_left (alignedKeywordEnd?_le haligned) _)
  | none =>
    dsimp only
    rw [h.indentation_eq hm hlt, Document.indentUnit, Document.indentUnit, hs]

theorem afterBackslashColumn_eq (h : AgreeAbove d e line) (hs : d.settings = e.settings)
    (htrim : (d.buffer.lineText line).trimStart = (e.buffer.lineText line).trimStart)
    (hline : 1 < line) {anchor : Nat} (ha : anchor < d.buffer.lineStart line) :
    d.afterBackslashColumn line anchor = e.afterBackslashColumn line anchor := by
  obtain ⟨m, rfl⟩ : ∃ m, line = m + 1 := ⟨line - 1, by omega⟩
  have hm : 1 ≤ m := by omega
  have hlt : m < m + 1 := Nat.lt_succ_self m
  simp only [Document.afterBackslashColumn, Nat.add_sub_cancel, Text.startsTrimmedWith_congr htrim,
    h.dotColumn_eq hs hm hlt, ← h.headerColumn?_eq, ← h.assignmentContinuation?_eq,
    h.indentation_eq hm hlt, h.firstBackslashColumn_eq hs hm hlt ha]
  have hcolumn : ∀ target, d.assignmentContinuation? (m + 1) = some target →
      d.buffer.column target = e.buffer.column target := by
    intro target htarget
    have hle := Document.assignmentContinuation?_le htarget
    rcases h.statementStart_cases with hstart | hstart
    · simp [Document.assignmentContinuation?, hstart] at htarget
    · exact h.column_eq_of_le (d.one_le_statementStart _) hstart hle
  have hback : (1 < m ∧ d.endsBackslash (m - 1) = true) =
      (1 < m ∧ e.endsBackslash (m - 1) = true) := by
    by_cases hone : 1 < m
    · rw [h.endsBackslash_eq (m := m - 1) (by omega) (by omega)]
    · simp [hone]
  cases hheader : d.headerColumn? (m + 1) with
  | some column => rfl
  | none =>
    cases htarget : d.assignmentContinuation? (m + 1) with
    | some target => simp only [hcolumn target htarget]
    | none => simp only [hback]

/-! ### The report -/

theorem columnFor_status_eq (h : AgreeAbove d e line) (hs : d.settings = e.settings)
    (htrim : (d.buffer.lineText line).trimStart = (e.buffer.lineText line).trimStart) :
    d.columnFor line (d.status line) = e.columnFor line (d.status line) := by
  rcases Document.status_cases h.one_le h.le_left with hstatus | ⟨bracket, hb, hstatus⟩ |
    ⟨s, hstring, hstatus⟩ | ⟨hline, hstatus⟩ | ⟨start, hlo, hhi, hstatus | hstatus⟩
  · rw [hstatus, Document.columnFor, Document.columnFor]
  · rw [hstatus, Document.columnFor, Document.columnFor, h.insideParenColumn_eq hs htrim hb]
  · rw [hstatus, Document.columnFor, Document.columnFor,
      h.indentationAt_eq (Document.stringStart_lt hstring)]
  · have ha : d.buffer.lineStart (line - 1) < d.buffer.lineStart line := by
      have hend := h.lineEnd_lt (m := line - 1) (by omega) (by omega)
      rw [Buffer.lineEnd, Line.stop] at hend
      rw [Buffer.lineStart]
      omega
    rw [hstatus, Document.columnFor, Document.columnFor, h.afterBackslashColumn_eq hs htrim hline ha]
  · rw [hstatus, Document.columnFor, Document.columnFor,
      h.indentationAt_eq (h.indentationEnd_lt hlo hhi), Document.indentUnit, Document.indentUnit, hs]
  · rw [hstatus, Document.columnFor, Document.columnFor,
      h.afterLineColumn_eq hs htrim (h.indentationEnd_lt hlo hhi)]

/-- The status of a line and its column come from the rows above it and from what follows its own
leading white space. -/
theorem report_eq (h : AgreeAbove d e line) (hs : d.settings = e.settings)
    (htrim : (d.buffer.lineText line).trimStart = (e.buffer.lineText line).trimStart) :
    d.report line = e.report line := by
  have hclamp := h.clampLine_left h.one_le (Nat.le_refl _)
  have hclamp' := h.symm.clampLine_left h.one_le (Nat.le_refl _)
  simp only [Document.report, hclamp, hclamp', ← h.status_eq, h.columnFor_status_eq hs htrim]

theorem followsBlockEnder_eq (h : AgreeAbove d e line) (hs : d.settings = e.settings)
    (htrim : (d.buffer.lineText line).trimStart = (e.buffer.lineText line).trimStart) :
    d.followsBlockEnder line (d.status line) = e.followsBlockEnder line (d.status line) := by
  rcases Document.status_cases h.one_le h.le_left with hstatus | ⟨bracket, -, hstatus⟩ |
    ⟨s, -, hstatus⟩ | ⟨-, hstatus⟩ | ⟨start, hlo, hhi, hstatus | hstatus⟩
  · simp only [hstatus, Document.followsBlockEnder]
  · simp only [hstatus, Document.followsBlockEnder]
  · simp only [hstatus, Document.followsBlockEnder]
  · simp only [hstatus, Document.followsBlockEnder]
  · simp only [hstatus, Document.followsBlockEnder]
  · obtain ⟨heq, hlo', hhi'⟩ := h.lineOfOffset_eq (h.indentationEnd_lt hlo hhi)
    rw [hstatus, Document.followsBlockEnder, Document.followsBlockEnder, ← heq,
      h.lineText_eq hlo' hhi', hs, DedentKeyword.atLineStart?_congr htrim]

end AgreeAbove

end Offside
