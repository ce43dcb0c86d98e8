import Offside.Proofs.LineEndings.Operations

/-!
# Line endings do not matter

A text without carriage returns, and the same text with one before every line feed, are the same to
all questions about lines.  What is answered by an offset in the first one is answered by the
corresponding offset in the second one, and operations lead from two such texts to two such texts
again.

* `CrlfVersion`, `Text.crlfOffset`: the two texts, and offsets in them;
* `line_endings_do_not_matter`.
-/

namespace Offside

/-- **Line endings do not matter.**  Let `e` have the text of `d`, in which there are no carriage
returns, with one before every line feed, and the same settings.  Both have as many lines and the
same guessed indent unit.  Every line has the same text, indentation, continuation, statement, block
and computed indentation, and is blank or a comment, or a block header, in both or in neither.  Its
status has the same name and the corresponding anchor; the state at its start has recorded
corresponding offsets, and the matches of a dedent keyword on it are at corresponding offsets.  The
search for a header around it ends with the same line, whatever headers are accepted.  Reindenting,
shifting and electric dedent are refused for the same reason, or give the same answer and two
documents that again differ in their line endings only. -/
theorem line_endings_do_not_matter {d e : Document} (h : CrlfVersion d e) :
    e.lineCount = d.lineCount ∧ e.guessIndentUnit? = d.guessIndentUnit? ∧
    (∀ line, 1 ≤ line → line ≤ d.lineCount →
      e.buffer.lineText line = d.buffer.lineText line ∧
      e.buffer.indentation line = d.buffer.indentation line ∧
      e.isBlankOrComment line = d.isBlankOrComment line ∧
      e.continuation line = d.continuation line ∧
      e.statementStart line = d.statementStart line ∧
      e.statementEnd line = d.statementEnd line ∧
      e.isBlockHeader line = d.isBlockHeader line ∧
      e.blockEnd line = d.blockEnd line ∧
      e.computedIndentation line = d.computedIndentation line ∧
      (e.status line).name = (d.status line).name ∧
      (e.status line).anchor? = (d.status line).anchor?.map d.text.crlfOffset ∧
      e.lineStartState line = (d.lineStartState line).map d.text.crlfOffset ∧
      e.dedentMatch? line = (d.dedentMatch? line).map d.text.crlfOffset ∧
      e.electricMatch? line = (d.electricMatch? line).map d.text.crlfOffset ∧
      ∀ accept : Nat → Bool, ∃ found,
        (d.enclosingHeaders line).find? accept = found ∧
        (e.enclosingHeaders line).find? accept = found ∧
        Ends (d.headerTurn accept) (d.buffer.indentation line, line) found ∧
        Ends (e.headerTurn accept) (e.buffer.indentation line, line) found ∧
        found.map e.buffer.indentationEnd =
          (found.map d.buffer.indentationEnd).map d.text.crlfOffset) ∧
    (∀ start stop, SameOutcome (d.reindent start stop) (e.reindent start stop)) ∧
    (∀ start stop count,
      SameOutcome (d.shiftRight start stop count) (e.shiftRight start stop count)) ∧
    (∀ start stop count,
      SameOutcome (d.shiftLeft start stop count) (e.shiftLeft start stop count)) ∧
    ∀ line, SameOutcome (d.electricDedent line) (e.electricDedent line) := by
  have hsame := h.shifted
  refine ⟨h.lineCount_eq.symm, hsame.guessIndentUnit?_eq.symm, fun line hone hle => ?_,
    h.sameOutcome_reindent, h.sameOutcome_shiftRight, h.sameOutcome_shiftLeft,
    h.sameOutcome_electricDedent⟩
  have hcolumn := h.indentation_eq line
  have hle' : line ≤ e.lineCount := h.lineCount_eq ▸ hle
  refine ⟨h.lineText_eq line, hcolumn, h.isBlankOrComment_eq line, h.continuation_eq line,
    (hsame.statementStart_eq line).symm, (hsame.statementEnd_eq line).symm,
    (h.isBlockHeader_eq line).symm, (hsame.blockEnd_eq hone hle hcolumn).symm,
    h.computedIndentation_eq line, ?_, ?_, h.lineStartState_eq line, h.dedentMatch?_eq hle,
    h.electricMatch?_eq hone hle, fun accept => ?_⟩
  · rw [h.status_eq, Status.name_map]
  · rw [h.status_eq, Status.anchor?_map]
  · have hheaders := hsame.enclosingHeaders_eq hle hcolumn
    refine ⟨_, rfl, by rw [hheaders], d.loopsEnd.enclosingHeader accept line hone hle, ?_,
      h.map_indentationEnd _⟩
    rw [hheaders]
    exact e.loopsEnd.enclosingHeader accept line hone hle'

/-- A string with an escaped line ending in it: two characters are escaped instead of one, the next
line starts in the string as before, and a keyword below it is moved to its header. -/
theorem line_endings_do_not_matter_in_string :
    let d := Document.ofText "if a:\n    s = b'x\\\ny'\n  else:\n".toList
    let e := Document.ofText d.text.withCrlf
    e.text = "if a:\r\n    s = b'x\\\r\ny'\r\n  else:\r\n".toList ∧ CrlfVersion d e ∧
      (d.status 3).anchor? = some 14 ∧ (e.status 3).anchor? = some 15 ∧
      ∃ d' e', d.electricDedent 4 = .ok (true, d') ∧ e.electricDedent 4 = .ok (true, e') ∧
        d'.text = "if a:\n    s = b'x\\\ny'\nelse:\n".toList ∧ CrlfVersion d' e' := by
  intro d e
  have h : CrlfVersion d e := CrlfVersion.withSettings (by decide +kernel) {}
  have hanchor : (d.status 3).anchor? = some 14 := by decide +kernel
  have hdedent : (d.electricDedent 4).map (fun r => (r.1, r.2.text)) =
      .ok (true, "if a:\n    s = b'x\\\ny'\nelse:\n".toList) := by decide +kernel
  obtain ⟨-, -, hlines, -, -, -, hsame⟩ := line_endings_do_not_matter h
  refine ⟨by decide +kernel, h, hanchor, ?_, ?_⟩
  · obtain ⟨-, -, -, -, -, -, -, -, -, -, hmap, -⟩ :=
      hlines 3 (by decide) (by decide +kernel)
    rw [hmap, hanchor]
    decide +kernel
  · have houtcome := hsame 4
    generalize d.electricDedent 4 = r at hdedent houtcome
    generalize e.electricDedent 4 = r' at houtcome
    cases houtcome with
    | refused err => cases hdedent
    | done answer hversion =>
      obtain ⟨rfl, htext⟩ := Prod.mk.inj (Except.ok.inj hdedent)
      exact ⟨_, _, rfl, rfl, htext, hversion⟩

end Offside
