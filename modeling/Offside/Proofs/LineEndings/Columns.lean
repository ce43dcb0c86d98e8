import Offside.Proofs.LineEndings.Structure
import Offside.Proofs.Guarded.Questions

/-!
# Columns with other line endings

The column that a line should start at is read off other lines, from a bracket, a string, a dot, a
keyword or an operator to the column where it stands.  With other line endings all of these stand at
corresponding offsets and so at the same columns.

* `assignmentEnd?_map_add`: operators of characters that are moved together;
* `CrlfVersion.insideParenColumn_eq`, `lastDot?_eq`, `headerColumn?_eq`, `exists_assignmentTarget?`:
  what lines are lined up with;
* `CrlfVersion.columnFor_eq`, `report_eq`: the column of a line.
-/

namespace Offside

open Lexical
open Text (size)

/-! ### Operators -/

theorem assignmentTokenEnd?_add (n start : Nat) (tokens : List Text) :
    assignmentTokenEnd? (n + start) tokens = (assignmentTokenEnd? start tokens).map (n + ·) := by
  induction tokens generalizing start with
  | nil => rfl
  | cons token rest ih =>
    rw [assignmentTokenEnd?, assignmentTokenEnd?, Nat.add_assoc, ih]
    split <;> rfl

/-- Characters that are moved together form the same runs. -/
theorem operatorRuns_map_add (n : Nat) (ks : List CodeChar) :
    operatorRuns (ks.map (CodeChar.map (n + ·))) =
      (operatorRuns ks).map fun run => (n + run.1, run.2) := by
  induction ks with
  | nil => rfl
  | cons k ks ih =>
    rw [List.map_cons, operatorRuns, operatorRuns, ih]
    have hmap : (k.map (n + ·)).depth = k.depth ∧ (k.map (n + ·)).char = k.char ∧
      (k.map (n + ·)).offset = n + k.offset := ⟨rfl, rfl, rfl⟩
    rw [hmap.1, hmap.2.1, hmap.2.2]
    split
    · cases operatorRuns ks with
      | nil => rfl
      | cons run runs =>
        simp only [List.map_cons, Nat.add_assoc, Nat.add_left_cancel_iff]
        split <;> rfl
    · rfl

theorem assignmentEnd?_map_add (n : Nat) (ks : List CodeChar) :
    assignmentEnd? (ks.map (CodeChar.map (n + ·))) = (assignmentEnd? ks).map (n + ·) := by
  rw [assignmentEnd?, assignmentEnd?, operatorRuns_map_add]
  induction operatorRuns ks with
  | nil => rfl
  | cons run runs ih =>
    rw [List.map_cons, List.findSome?_cons, List.findSome?_cons, assignmentTokenEnd?_add, ih]
    cases assignmentTokenEnd? run.1 (operatorTokens run.2) <;> rfl

namespace Document

variable {d : Document} {line m : Nat} {k : CodeChar}

theorem isBoundary_of_mem_codeCharsOfLines {stop : Nat} (h : k ∈ d.codeCharsOfLines line stop) :
    d.text.IsBoundary k.offset := by
  obtain ⟨u, x, hdrop, hoffset⟩ := standsAt_of_mem_codeCharsOfLines h
  obtain ⟨p, y, htext, hstart⟩ := Text.isBoundary_iff.1 (d.buffer.isBoundary_lineStart line)
  rw [hstart, show d.text = p ++ y from htext, Text.dropBytes_size] at hdrop
  refine Text.isBoundary_iff.2 ⟨p ++ u, [k.char] ++ x, ?_, ?_⟩
  · rw [List.append_assoc, ← hdrop]
    exact htext
  · rw [hoffset, hstart, Text.size_append]

/-- A code character of a line is part of its body. -/
theorem exists_lineText_of_mem_codeChars (h : k ∈ d.codeCharsOfLines line (d.buffer.lineEnd line)) :
    ∃ u r, d.buffer.lineText line = u ++ k.char :: r ∧
      k.offset = d.buffer.lineStart line + size u := by
  obtain ⟨u, x, hdrop, hoffset⟩ := standsAt_of_mem_codeCharsOfLines h
  obtain ⟨p, y, htext, hstart, hend⟩ := d.buffer.exists_text_around_body line
  have hlt := offset_lt_of_mem_codeCharsOfLines h
  rw [hoffset, hend, hstart] at hlt
  rw [Document.text, htext, hstart, Text.dropBytes_size] at hdrop
  rcases List.append_eq_append_iff.1 hdrop with ⟨v, hu, -⟩ | ⟨v, hbody, hv⟩
  · rw [hu, Text.size_append] at hlt
    omega
  · cases v with
    | nil =>
      rw [hbody, List.append_nil] at hlt
      omega
    | cons c r =>
      obtain ⟨rfl, -⟩ := List.cons_eq_cons.1 hv
      exact ⟨u, r, hbody, hoffset⟩

end Document

namespace CrlfVersion

variable {d e : Document} {line m bracket anchor : Nat}

/-! ### After lines and in brackets -/

theorem afterLineColumn_eq (h : CrlfVersion d e) {previous : Nat}
    (hp : d.text.IsBoundary previous) :
    e.afterLineColumn line (d.text.crlfOffset previous) = d.afterLineColumn line previous := by
  rw [Document.afterLineColumn, Document.afterLineColumn, h.indentationAt_eq hp, h.settings_eq,
    h.lineText_eq, h.indentUnit_eq]

theorem insideParenColumn_eq (h : CrlfVersion d e)
    (hb : (d.lineStartState line).innermostParen? = some bracket) :
    e.insideParenColumn line (d.text.crlfOffset bracket) = d.insideParenColumn line bracket := by
  obtain ⟨v, c, x, htext, hsize, -⟩ := Document.exists_bracket (List.mem_of_mem_head? hb)
  have hbound : d.text.IsBoundary bracket := Text.isBoundary_iff.2 ⟨v, c :: x, htext, hsize⟩
  obtain ⟨hlo, hhi⟩ := d.buffer.lineOfOffset_mem bracket
  -- the bracket and what follows it stand at the same distance from the start of the line
  obtain ⟨u, w, hbody, hoffset⟩ := h.exists_lineText_of_isBoundary hbound
  have hcut := h.crlfOffset_eq hbody
  rw [← hoffset] at hcut
  have hplace : bracket + 1 - d.buffer.lineStart (d.buffer.lineOfOffset bracket) = size u + 1 := by
    omega
  have hplace' : d.text.crlfOffset bracket + 1 -
      e.buffer.lineStart (d.buffer.lineOfOffset bracket) = size u + 1 := by
    omega
  have hcolumn : ∀ k, size u + 1 + k ≤ size (d.buffer.lineText (d.buffer.lineOfOffset bracket)) →
      e.buffer.column (d.text.crlfOffset bracket + 1 + k) = d.buffer.column (bracket + 1 + k) := by
    intro k hk
    have hsame := h.column_eq_of_le hlo hhi hk
    rwa [← Nat.add_assoc, ← Nat.add_assoc, ← hcut, ← Nat.add_assoc, ← Nat.add_assoc,
      ← hoffset] at hsame
  have hafter := Document.afterBracket_le hb
  rw [Buffer.lineEnd_eq_add, hplace] at hafter
  simp only [Document.insideParenColumn, h.lineOfOffset_eq hbound, hplace, hplace', h.lineText_eq,
    h.indentation_eq, h.lineStartState_eq, State.map_depth, h.indentUnit_eq]
  rw [hcolumn _ (by omega)]

/-! ### After a backslash -/

theorem lastDot?_eq (h : CrlfVersion d e) (hm : 1 ≤ m) (hle : m ≤ d.lineCount) :
    e.lastDot? m = (d.lastDot? m).map d.text.crlfOffset := by
  have hkeep : ∀ k : CodeChar, (k.char == '.' && k.depth == 0) = true → k.inBody = true := by
    intro k hk
    obtain ⟨hdot, -⟩ := Bool.and_eq_true_iff.1 hk
    rw [CodeChar.inBody, beq_iff_eq.1 hdot]
    decide
  rw [Document.lastDot?, Document.lastDot?, ← CodeChar.filter_filter_inBody hkeep,
    ← CodeChar.filter_filter_inBody hkeep (d.codeCharsOfLines _ _),
    ← h.sameStatements.statementStart_eq,
    h.codeCharsOfLines_eq (d.one_le_statementStart m) (Document.statementStart_le hm hle) hle,
    List.filter_map, List.getLast?_map, Option.map_map, Option.map_map]
  rfl

theorem dotColumn_eq (h : CrlfVersion d e) (hm : 1 ≤ m) (hle : m ≤ d.lineCount) :
    e.dotColumn m = d.dotColumn m := by
  rw [Document.dotColumn, Document.dotColumn, h.lastDot?_eq hm hle]
  cases hdot : d.lastDot? m with
  | some dot =>
    obtain ⟨k, hk, rfl⟩ := Option.map_eq_some_iff.1 hdot
    have hmem := (List.mem_filter.1 (List.mem_of_getLast? hk)).1
    exact h.column_eq (Document.isBoundary_of_mem_codeCharsOfLines hmem)
  | none =>
    rw [h.indentation_eq, h.indentUnit_eq]
    rfl

theorem headerColumn?_eq (h : CrlfVersion d e) (line : Nat) :
    e.headerColumn? line = d.headerColumn? line := by
  have hheader : e.blockContinuation? line =
      (d.blockContinuation? line).map d.text.crlfOffset := by
    rw [Document.blockContinuation?, Document.blockContinuation?, h.lineText_eq,
      ← h.sameStatements.statementStart_eq, ← h.crlfOffset_indentationEnd]
    split <;> rfl
  rw [Document.headerColumn?, Document.headerColumn?, hheader]
  cases hd : d.blockContinuation? line with
  | none => rfl
  | some header =>
    obtain ⟨hlo, hhi⟩ := d.buffer.lineOfOffset_mem header
    simp only [Option.map_some, Option.bind_eq_bind, Option.bind_some,
      h.lineOfOffset_eq (Document.isBoundary_of_blockContinuation? hd), h.lineText_eq]
    cases hkeyword : blockKeywordEnd? (d.buffer.lineText (d.buffer.lineOfOffset header)) with
    | none => rfl
    | some keyword =>
      simp only [Option.bind_some, h.column_eq_of_le hlo hhi (blockKeywordEnd?_le hkeyword)]

theorem firstBackslashColumn_eq (h : CrlfVersion d e) (ha : d.text.IsBoundary anchor) :
    e.firstBackslashColumn m (d.text.crlfOffset anchor) = d.firstBackslashColumn m anchor := by
  obtain ⟨hlo, hhi⟩ := d.buffer.lineOfOffset_mem anchor
  simp only [Document.firstBackslashColumn, h.lineOfOffset_eq ha, h.lineText_eq, h.indentation_eq,
    h.indentUnit_eq]
  cases haligned : alignedKeywordEnd? (d.buffer.lineText (d.buffer.lineOfOffset anchor)) with
  | some stop => exact h.column_eq_of_le hlo hhi (alignedKeywordEnd?_le haligned)
  | none => rfl

/-- The code characters of a line belong to no line ending. -/
theorem filter_inBody_eq (h : CrlfVersion d e) {f : Document}
    (hbody : f.buffer.lineText m = d.buffer.lineText m) :
    (f.codeCharsOfLines m (f.buffer.lineEnd m)).filter CodeChar.inBody =
      f.codeCharsOfLines m (f.buffer.lineEnd m) := by
  refine List.filter_eq_self.2 fun k hk => ?_
  obtain ⟨u, r, hline, -⟩ := Document.exists_lineText_of_mem_codeChars hk
  have hmem : k.char ∈ d.buffer.lineText m := by
    rw [← hbody, hline]
    exact List.mem_append_right u List.mem_cons_self
  have hreturn : k.char ≠ '\r' := by
    intro hchar
    obtain ⟨p, x, htext, -⟩ := d.buffer.exists_text_around_body m
    refine h.not_mem ?_
    rw [Document.text, htext, ← hchar]
    exact List.mem_append_right p (List.mem_append_left x hmem)
  have hfeed : k.char ≠ '\n' := by
    intro hchar
    rw [hchar] at hmem
    exact d.buffer.not_mem_newline_lineText m hmem
  simp [CodeChar.inBody, hreturn, hfeed]

/-- The first assignment operator of a line ends at the same distance from its start. -/
theorem exists_assignmentEnd? (h : CrlfVersion d e) (hm : 1 ≤ m) (hle : m ≤ d.lineCount) :
    ∃ found : Option Nat,
      assignmentEnd? (d.codeCharsOfLines m (d.buffer.lineEnd m)) =
        found.map (d.buffer.lineStart m + ·) ∧
      assignmentEnd? (e.codeCharsOfLines m (e.buffer.lineEnd m)) =
        found.map (e.buffer.lineStart m + ·) := by
  -- the code characters of the line, by their distance from its start
  generalize hks : (d.codeCharsOfLines m (d.buffer.lineEnd m)).map
    (CodeChar.map (· - d.buffer.lineStart m)) = ks
  have hd : d.codeCharsOfLines m (d.buffer.lineEnd m) =
      ks.map (CodeChar.map (d.buffer.lineStart m + ·)) := by
    rw [← hks, List.map_map]
    refine ((List.map_congr_left fun k hk => ?_).trans (List.map_id _)).symm
    obtain ⟨u, r, -, hoffset⟩ := Document.exists_lineText_of_mem_codeChars hk
    rw [Function.comp_apply, CodeChar.map, CodeChar.map, hoffset, Nat.add_sub_cancel_left,
      ← hoffset]
    rfl
  have he : e.codeCharsOfLines m (e.buffer.lineEnd m) =
      ks.map (CodeChar.map (e.buffer.lineStart m + ·)) := by
    rw [← h.filter_inBody_eq (h.lineText_eq m), h.codeCharsOfLines_eq hm (Nat.le_refl m) hle,
      h.filter_inBody_eq rfl, ← hks, List.map_map, List.map_inj_left]
    intro k hk
    obtain ⟨u, r, hline, hoffset⟩ := Document.exists_lineText_of_mem_codeChars hk
    rw [Function.comp_apply, CodeChar.map, CodeChar.map, CodeChar.map, hoffset,
      h.crlfOffset_eq hline, Nat.add_sub_cancel_left]
  exact ⟨assignmentEnd? ks, by rw [hd, assignmentEnd?_map_add], by rw [he, assignmentEnd?_map_add]⟩

/-- What follows an assignment operator stands at the same column. -/
theorem assignmentColumn?_eq (h : CrlfVersion d e) (line : Nat) :
    (e.assignmentContinuation? line).map e.buffer.column =
      (d.assignmentContinuation? line).map d.buffer.column := by
  have hlo := d.one_le_statementStart line
  have hhi := d.statementStart_le_lineCount line
  have hbound : ∀ n, d.assignmentContinuation? line = some n →
      n ≤ d.buffer.lineEnd (d.statementStart line) :=
    fun n => Document.assignmentContinuation?_le
  rw [Document.assignmentContinuation?_eq_ite] at hbound ⊢
  rw [Document.assignmentContinuation?_eq_ite, ← h.sameStatements.statementStart_eq, h.lineText_eq]
  split
  · next hcond =>
    rw [if_pos hcond] at hbound
    obtain ⟨found, hd, he⟩ := h.exists_assignmentEnd? hlo hhi
    rw [Document.assignmentTarget?, hd] at hbound
    rw [Document.assignmentTarget?, Document.assignmentTarget?, hd, he]
    cases found with
    | none => rfl
    | some n =>
      have hle := hbound _ rfl
      simp only [Option.map_some, Nat.add_sub_cancel_left, h.lineText_eq, Nat.add_assoc] at hle ⊢
      rw [Buffer.lineEnd_eq_add] at hle
      rw [h.column_eq_of_le hlo hhi (by omega)]
  · rfl

theorem afterBackslashColumn_eq (h : CrlfVersion d e) (hline : 1 < line) (hle : line ≤ d.lineCount)
    (ha : d.text.IsBoundary anchor) :
    e.afterBackslashColumn line (d.text.crlfOffset anchor) =
      d.afterBackslashColumn line anchor := by
  have hcolumn := h.assignmentColumn?_eq line
  have hdot := h.dotColumn_eq (m := line - 1) (by omega) (by omega)
  simp only [Document.afterBackslashColumn, h.lineText_eq, hdot, h.headerColumn?_eq,
    h.endsBackslash_eq, h.indentation_eq, h.firstBackslashColumn_eq ha]
  cases d.headerColumn? line with
  | some column => rfl
  | none =>
    revert hcolumn
    cases d.assignmentContinuation? line with
    | none =>
      intro hcolumn
      rw [Option.map_eq_none_iff.1 hcolumn]
    | some target =>
      intro hcolumn
      obtain ⟨target', he, hsame⟩ := Option.map_eq_some_iff.1 hcolumn
      rw [he]
      dsimp only
      rw [hsame]

/-! ### The report -/

theorem columnFor_eq (h : CrlfVersion d e) (hone : 1 ≤ line) (hle : line ≤ d.lineCount) :
    e.columnFor line (e.status line) = d.columnFor line (d.status line) := by
  rw [h.status_eq]
  have hanchor : ∀ o, (d.status line).anchor? = some o → d.text.IsBoundary o :=
    fun o => Document.isBoundary_of_anchor hone hle
  rcases Document.status_cases hone hle with hstatus | ⟨bracket, hb, hstatus⟩ |
    ⟨s, hs, hstatus⟩ | ⟨hline, hstatus⟩ | ⟨start, hlo, hhi, hstatus | hstatus⟩ <;>
    rw [hstatus] at hanchor ⊢ <;> rw [Status.map, Document.columnFor, Document.columnFor]
  · exact h.insideParenColumn_eq hb
  · exact h.indentationAt_eq (hanchor _ rfl)
  · exact h.afterBackslashColumn_eq hline hle (hanchor _ rfl)
  · rw [h.indentationAt_eq (hanchor _ rfl), h.indentUnit_eq]
  · exact h.afterLineColumn_eq (hanchor _ rfl)

/-- A line has the same column computed for it. -/
theorem report_eq (h : CrlfVersion d e) (line : Nat) :
    e.report line =
      ⟨(d.report line).line, (d.report line).status.map d.text.crlfOffset,
        (d.report line).indentation⟩ := by
  obtain ⟨hone, hle⟩ := d.buffer.clampLine_mem line
  rw [Document.report, Document.report, h.clampLine_eq]
  dsimp only
  rw [h.columnFor_eq hone hle, h.status_eq]

theorem computedIndentation_eq (h : CrlfVersion d e) (line : Nat) :
    e.computedIndentation line = d.computedIndentation line := by
  rw [Document.computedIndentation, Document.computedIndentation, h.report_eq]

end CrlfVersion

end Offside
