import Offside.Status
import Offside.Proofs.Agreement.Lines
import Offside.Proofs.Statement

/-!
# The status of a line comes from above

Documents that agree above a line agree on how the lines above continue and form statements, and so
on the status of the line.  The end of a statement above is the same in both as long as the line
itself is no continuation; then nothing below is asked.

* `Document.status_cases`: what the status of a line can be, with its anchor;
* `AgreeAbove.continuation_eq`, `statementStart_eq`, `previousCodeLine?_eq`: looking back;
* `AgreeAbove.statementEnd_eq`, `isBlockHeader_eq`: the statements that end above the line;
* `AgreeAbove.status_eq`: the status.
-/

namespace Offside

open Lexical

namespace Document

variable {d : Document} {m : Nat}

/-- The state after a line is the state at the start of the next one. -/
theorem stateAt_nextLineStart (hm : 1 ≤ m) (hlt : m < d.lineCount) :
    d.stateAt (d.buffer.nextLineStart m) = d.lineStartState (m + 1) := by
  obtain ⟨above, row, between, row', below, h, rfl, hn⟩ :=
    Buffer.exists_rows_of_lt (b := d.buffer) hm (Nat.lt_succ_self m) hlt
  obtain rfl : between = [] := by simpa using hn
  have h' : d.buffer.text.rows = (above ++ [row]) ++ row' :: below := by simpa using h
  have hstart := Buffer.lineStart_of_rows h'
  rw [stateAt_eq, lineStartState_eq, Buffer.nextLineStart_of_rows h]
  rw [List.length_append, List.length_singleton] at hstart
  rw [hstart]
  simp

/-- A line continues if the next one starts in brackets or in a string, or if it ends in a
backslash. -/
theorem continues_eq (hm : 1 ≤ m) (hlt : m < d.lineCount) :
    d.continues m = (decide (0 < (d.lineStartState (m + 1)).depth) ||
      (d.lineStartState (m + 1)).inString || d.endsBackslash m) := by
  have hline : d.buffer.hasLine m = true := Buffer.hasLine_iff.2 ⟨hm, Nat.le_of_lt hlt⟩
  rw [continues, continuation, if_pos hline, stateAt_nextLineStart hm hlt]
  by_cases hdepth : 0 < (d.lineStartState (m + 1)).depth
  · simp [hdepth]
  · cases hstring : (d.lineStartState (m + 1)).inString <;> cases d.endsBackslash m <;>
      simp [hdepth, hstring]

/-! ### The status by cases -/

theorem status_one (d : Document) : d.status 1 = .noIndent := by
  have hclamp : d.buffer.clampLine 1 = 1 :=
    Buffer.clampLine_of_hasLine (Nat.le_refl 1) d.buffer.lineCount_pos
  simp only [status, hclamp, if_true]

section Cases

variable (hm : 1 ≤ m) (hlt : m < d.lineCount)

include hlt in
theorem clampLine_succ : d.buffer.clampLine (m + 1) = m + 1 :=
  Buffer.clampLine_of_hasLine (by omega) hlt

include hm hlt

theorem status_of_paren {bracket : Nat}
    (hparen : (d.lineStartState (m + 1)).innermostParen? = some bracket) :
    d.status (m + 1) = .insideParen bracket := by
  have hne : m + 1 ≠ 1 := by omega
  simp only [status, clampLine_succ hlt, hne, if_false, hparen]

theorem status_of_string {s : OpenString}
    (hparen : (d.lineStartState (m + 1)).innermostParen? = none)
    (hstring : (d.lineStartState (m + 1)).string? = some s) :
    d.status (m + 1) = .insideString s.start := by
  have hne : m + 1 ≠ 1 := by omega
  simp only [status, clampLine_succ hlt, hne, if_false, hparen, hstring]

theorem status_of_backslash (hparen : (d.lineStartState (m + 1)).innermostParen? = none)
    (hstring : (d.lineStartState (m + 1)).string? = none) (hback : d.endsBackslash m = true) :
    d.status (m + 1) = .afterBackslash (d.buffer.lineStart m) := by
  have hne : m + 1 ≠ 1 := by omega
  simp only [status, clampLine_succ hlt, hne, if_false, hparen, hstring, Nat.add_sub_cancel, hback,
    if_true]

/-- A line does not continue exactly if nothing is open after it and it ends in no backslash. -/
theorem continues_eq_false_iff :
    d.continues m = false ↔ (d.lineStartState (m + 1)).innermostParen? = none ∧
      (d.lineStartState (m + 1)).string? = none ∧ d.endsBackslash m = false := by
  have hdepth : (d.lineStartState (m + 1)).innermostParen? = none ↔
      (d.lineStartState (m + 1)).depth = 0 := by
    simp [State.depth, State.innermostParen?]
  rw [continues_eq hm hlt, hdepth, State.inString]
  simp [and_assoc]

/-- The status of a line that is no continuation goes by the code line above it. -/
theorem status_of_not_continues (hlast : d.continues m = false) :
    d.status (m + 1) = (d.previousCodeLine? (m + 1)).elim .noIndent d.statusAfter := by
  obtain ⟨hparen, hstring, hback⟩ := (continues_eq_false_iff hm hlt).1 hlast
  have hne : m + 1 ≠ 1 := by omega
  simp only [status, clampLine_succ hlt, hne, if_false, hparen, hstring, Nat.add_sub_cancel, hback,
    Bool.false_eq_true]
  cases hp : d.previousCodeLine? (m + 1) with
  | none => simp only [Option.elim_none]
  | some p => simp only [Option.elim_some]

end Cases

/-- What the status of a line can be, with the anchor that it goes by. -/
theorem status_cases {line : Nat} (hline : 1 ≤ line) (hle : line ≤ d.lineCount) :
    d.status line = .noIndent ∨
    (∃ bracket, (d.lineStartState line).innermostParen? = some bracket ∧
      d.status line = .insideParen bracket) ∨
    (∃ s, (d.lineStartState line).string? = some s ∧ d.status line = .insideString s.start) ∨
    (1 < line ∧ d.status line = .afterBackslash (d.buffer.lineStart (line - 1))) ∨
    (∃ start, 1 ≤ start ∧ start < line ∧
      (d.status line = .afterBlockStart (d.buffer.indentationEnd start) ∨
        d.status line = .afterLine (d.buffer.indentationEnd start))) := by
  -- the cases in the order in which the status asks for them
  by_cases hone : line = 1
  · exact .inl (hone ▸ d.status_one)
  · obtain ⟨m, rfl⟩ : ∃ m, line = m + 1 := ⟨line - 1, by omega⟩
    have hm : 1 ≤ m := by omega
    cases hparen : (d.lineStartState (m + 1)).innermostParen? with
    | some bracket => exact .inr (.inl ⟨bracket, rfl, status_of_paren hm hle hparen⟩)
    | none =>
      cases hstring : (d.lineStartState (m + 1)).string? with
      | some s => exact .inr (.inr (.inl ⟨s, rfl, status_of_string hm hle hparen hstring⟩))
      | none =>
        cases hback : d.endsBackslash m with
        | true =>
          exact .inr (.inr (.inr (.inl ⟨by omega, status_of_backslash hm hle hparen hstring hback⟩)))
        | false =>
          have hlast := (continues_eq_false_iff hm hle).2 ⟨hparen, hstring, hback⟩
          have hstatus := status_of_not_continues hm hle hlast
          cases hp : d.previousCodeLine? (m + 1) with
          | none =>
            rw [hp, Option.elim_none] at hstatus
            exact .inl hstatus
          | some p =>
            obtain ⟨hlo, hhi, -⟩ := previousCodeLine?_eq_some hp
            have hstart := statementStart_le hlo (Nat.le_trans (Nat.le_of_lt hhi) hle)
            rw [hp, Option.elim_some, statusAfter] at hstatus
            refine .inr (.inr (.inr (.inr ⟨d.statementStart p, d.one_le_statementStart p,
              by omega, ?_⟩)))
            rw [hstatus]
            split
            · exact .inl rfl
            · exact .inr rfl

end Document

namespace AgreeAbove

variable {d e : Document} {line m : Nat}

/-! ### Looking back -/

theorem endsBackslash_eq (h : AgreeAbove d e line) (hm : 1 ≤ m) (hlt : m < line) :
    d.endsBackslash m = e.endsBackslash m := by
  have hlt' := h.lineEnd_lt hm hlt
  have hend : d.buffer.lineEnd m = e.buffer.lineEnd m := by
    rw [Buffer.lineEnd, Buffer.lineEnd, h.line_eq hm hlt]
  have hstate := h.stateAt_eq
    (show d.buffer.lineEnd m - 1 ≤ d.buffer.lineStart line by omega)
  rw [Document.endsBackslash, Document.endsBackslash, h.hasLine_left hm (Nat.le_of_lt hlt),
    h.symm.hasLine_left hm (Nat.le_of_lt hlt), h.lineText_eq hm hlt, hstate, hend]

theorem continuation_eq (h : AgreeAbove d e line) (hm : 1 ≤ m) (hlt : m < line) :
    d.continuation m = e.continuation m := by
  have hnext : d.buffer.nextLineStart m = e.buffer.nextLineStart m := by
    rw [Buffer.nextLineStart, Buffer.nextLineStart, h.line_eq hm hlt]
  have hstate := h.stateAt_eq (Buffer.lineEnd_lt_lineStart hm hlt h.le_left).2
  rw [Document.continuation, Document.continuation, h.hasLine_left hm (Nat.le_of_lt hlt),
    h.symm.hasLine_left hm (Nat.le_of_lt hlt), hstate, hnext, h.endsBackslash_eq hm hlt]

theorem continues_eq (h : AgreeAbove d e line) (hm : 1 ≤ m) (hlt : m < line) :
    d.continues m = e.continues m := by
  rw [Document.continues, Document.continues, h.continuation_eq hm hlt]

theorem startFrom_eq (h : AgreeAbove d e line) (hle : m ≤ line) :
    d.startFrom m = e.startFrom m := by
  induction m with
  | zero => rfl
  | succ n ih =>
    cases n with
    | zero => rfl
    | succ n =>
      rw [Document.startFrom, Document.startFrom, h.continues_eq (by omega) hle, ih (by omega)]

theorem statementStart_eq (h : AgreeAbove d e line) (hm : 1 ≤ m) (hle : m ≤ line) :
    d.statementStart m = e.statementStart m := by
  rw [Document.statementStart, Document.statementStart, h.clampLine_left hm hle,
    h.symm.clampLine_left hm hle, h.startFrom_eq hle]

theorem isBlankOrComment_eq (h : AgreeAbove d e line) (hm : 1 ≤ m) (hlt : m < line) :
    d.isBlankOrComment m = e.isBlankOrComment m := by
  rw [Document.isBlankOrComment, Document.isBlankOrComment, h.lineText_eq hm hlt,
    h.lineStartState_eq_of_le hm (Nat.le_of_lt hlt)]

theorem previousCodeLine?_eq (h : AgreeAbove d e line) (hle : m ≤ line) :
    d.previousCodeLine? m = e.previousCodeLine? m := by
  induction m with
  | zero => rfl
  | succ n ih =>
    cases n with
    | zero => rfl
    | succ n =>
      rw [Document.previousCodeLine?, Document.previousCodeLine?,
        h.isBlankOrComment_eq (by omega) hle, ih (by omega)]

/-! ### Statements that end above the line -/

/-- Going on from a line above stops above, if the last line above does not continue. -/
theorem endFrom_eq (h : AgreeAbove d e line) (hlast : d.continues (line - 1) = false) {k n n' : Nat}
    (hm : 1 ≤ m) (hk : m + k + 1 = line) (hn : k ≤ n) (hn' : k ≤ n') :
    d.endFrom n m = e.endFrom n' m ∧ d.endFrom n m < line := by
  induction k generalizing m n n' with
  | zero =>
    have hm' : line - 1 = m := by omega
    have hd : d.continues m = false := hm' ▸ hlast
    have he : e.continues m = false := by rwa [← h.continues_eq hm (by omega)]
    have hstop : d.endFrom n m = m ∧ e.endFrom n' m = m := by
      constructor
      · cases n <;> simp [Document.endFrom, hd]
      · cases n' <;> simp [Document.endFrom, he]
    rw [hstop.1, hstop.2]
    omega
  | succ k ih =>
    obtain ⟨n, rfl⟩ : ∃ j, n = j + 1 := ⟨n - 1, by omega⟩
    obtain ⟨n', rfl⟩ : ∃ j, n' = j + 1 := ⟨n' - 1, by omega⟩
    rw [Document.endFrom, Document.endFrom, ← h.continues_eq hm (by omega)]
    split
    · exact ih (m := m + 1) (by omega) (by omega) (by omega) (by omega)
    · exact ⟨rfl, by omega⟩

theorem statementEnd_eq (h : AgreeAbove d e line) (hlast : d.continues (line - 1) = false)
    (hm : 1 ≤ m) (hlt : m < line) :
    d.statementEnd m = e.statementEnd m ∧ d.statementEnd m < line := by
  have hd := h.le_left
  have he := h.le_right
  rw [Document.statementEnd_of_hasLine hm (by omega), Document.statementEnd_of_hasLine hm (by omega)]
  exact h.endFrom_eq hlast (k := line - 1 - m) hm (by omega) (by omega) (by omega)

theorem endsWithColon_eq (h : AgreeAbove d e line) {start stop : Nat} (hstart : 1 ≤ start)
    (hstart' : start < line) (hstop : 1 ≤ stop) (hstop' : stop < line) :
    d.endsWithColon start stop = e.endsWithColon start stop := by
  have hend : d.buffer.lineEnd stop = e.buffer.lineEnd stop := by
    rw [Buffer.lineEnd, Buffer.lineEnd, h.line_eq hstop hstop']
  rw [Document.endsWithColon, Document.endsWithColon,
    h.codeCharsOfLines_eq hstart hstart' (Nat.le_of_lt (h.lineEnd_lt hstop hstop')), hend]

theorem isBlockHeader_eq (h : AgreeAbove d e line) (hlast : d.continues (line - 1) = false)
    (hm : 1 ≤ m) (hlt : m < line) : d.isBlockHeader m = e.isBlockHeader m := by
  have hstart := h.statementStart_eq hm (Nat.le_of_lt hlt)
  have hlo := d.one_le_statementStart m
  have hhi : d.statementStart m < line := by
    have := Document.statementStart_le (d := d) hm (Nat.le_of_lt (Nat.lt_of_lt_of_le hlt h.le_left))
    omega
  obtain ⟨hend, hend'⟩ := h.statementEnd_eq hlast hlo hhi
  have hend'' : 1 ≤ d.statementEnd (d.statementStart m) := by
    rw [Document.statementEnd_of_hasLine hlo (by have := h.le_left; omega)]
    exact Nat.le_trans hlo (d.le_endFrom _ _)
  rw [Document.isBlockHeader, Document.isBlockHeader, ← hstart, h.lineText_eq hlo hhi, ← hend,
    h.endsWithColon_eq hlo hhi hend'' hend']

/-! ### The status -/

theorem statusAfter_eq (h : AgreeAbove d e line) (hlast : d.continues (line - 1) = false)
    (hm : 1 ≤ m) (hlt : m < line) : d.statusAfter m = e.statusAfter m := by
  have hlo := d.one_le_statementStart m
  have hhi : d.statementStart m < line := by
    have := Document.statementStart_le (d := d) hm (Nat.le_of_lt (Nat.lt_of_lt_of_le hlt h.le_left))
    omega
  rw [Document.statusAfter, Document.statusAfter, ← h.statementStart_eq hm (Nat.le_of_lt hlt),
    h.isBlockHeader_eq hlast hlo hhi, h.indentationEnd_eq hlo hhi]

/-- The status of a line comes from the rows above it. -/
theorem status_eq (h : AgreeAbove d e line) : d.status line = e.status line := by
  by_cases hone : line = 1
  · subst hone
    rw [Document.status_one, Document.status_one]
  · obtain ⟨m, rfl⟩ : ∃ m, line = m + 1 := ⟨line - 1, by have := h.one_le; omega⟩
    have hm : 1 ≤ m := by omega
    have hd := h.le_left
    have he := h.le_right
    have hstate := h.lineStartState_eq
    have hsame := h.endsBackslash_eq hm (Nat.lt_succ_self m)
    cases hparen : (d.lineStartState (m + 1)).innermostParen? with
    | some bracket =>
      rw [Document.status_of_paren hm hd hparen, Document.status_of_paren hm he (hstate ▸ hparen)]
    | none =>
      cases hstring : (d.lineStartState (m + 1)).string? with
      | some s =>
        rw [Document.status_of_string hm hd hparen hstring,
          Document.status_of_string hm he (hstate ▸ hparen) (hstate ▸ hstring)]
      | none =>
        cases hback : d.endsBackslash m with
        | true =>
          rw [Document.status_of_backslash hm hd hparen hstring hback,
            Document.status_of_backslash hm he (hstate ▸ hparen) (hstate ▸ hstring) (hsame ▸ hback),
            Buffer.lineStart, Buffer.lineStart, h.line_eq hm (Nat.lt_succ_self m)]
        | false =>
          -- the line is no continuation, so the statements above it end above it
          have hlast : d.continues m = false :=
            (Document.continues_eq_false_iff hm hd).2 ⟨hparen, hstring, hback⟩
          have hlast' : e.continues m = false := by
            rwa [← h.continues_eq hm (Nat.lt_succ_self m)]
          rw [Document.status_of_not_continues hm hd hlast,
            Document.status_of_not_continues hm he hlast', ← h.previousCodeLine?_eq (Nat.le_refl _)]
          cases hp : d.previousCodeLine? (m + 1) with
          | none => rw [Option.elim_none, Option.elim_none]
          | some p =>
            obtain ⟨hlo, hhi, -⟩ := Document.previousCodeLine?_eq_some hp
            rw [Option.elim_some, Option.elim_some]
            exact h.statusAfter_eq hlast hlo hhi

end AgreeAbove

end Offside
