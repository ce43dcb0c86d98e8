import Offside.Block
import Offside.Proofs.CodeLines
import Offside.Proofs.Agreement.Report

/-!
# Statements partition the lines

A statement is a run of lines that continue onto each other and that no line joins on either side.
Going back to the first line and going on to the last one are separate walks; from every line of a
statement both of them end at the bounds of that run.

* `Document.IsStatement`: the lines from one to another form a statement;
* `Document.isStatement_of_line`, `IsStatement.bounds_eq`: the two walks find it, from any of its
  lines;
* `IsStatement.lineStartState_eq`, `IsStatement.eq_of_isBlankOrComment`: how a statement starts;
* `statements_partition`.
-/

namespace Offside

/-! ### Lines and offsets -/

namespace Buffer

variable {b : Buffer} {m n : Nat}

/-- Every offset lies on an existing line. -/
theorem lineOfOffset_mem (b : Buffer) (offset : Nat) :
    1 ≤ b.lineOfOffset offset ∧ b.lineOfOffset offset ≤ b.lineCount := by
  obtain ⟨above, row, below, h, hlo, hhi⟩ :=
    Text.exists_rows_of_offset b.text.rows (Text.rows_ne_nil b.text) offset
  rw [lineOfOffset_of_rows h hlo hhi]
  exact ⟨by omega, length_le_lineCount h⟩

theorem lineStart_le_indentationEnd (b : Buffer) (line : Nat) :
    b.lineStart line ≤ b.indentationEnd line :=
  Nat.le_add_right _ _

/-- A line ends before what follows the indentation of a later one. -/
theorem lineEnd_lt_indentationEnd (hm : 1 ≤ m) (hmn : m < n) (hn : n ≤ b.lineCount) :
    b.lineEnd m < b.indentationEnd n :=
  Nat.lt_of_lt_of_le (lineEnd_lt_lineStart hm hmn hn).1 (b.lineStart_le_indentationEnd n)

/-- The indentation of a line ends before any later line does. -/
theorem indentationEnd_le_lineEnd (hm : 1 ≤ m) (hmn : m ≤ n) (hn : n ≤ b.lineCount) :
    b.indentationEnd m ≤ b.lineEnd n := by
  rcases Nat.eq_or_lt_of_le hmn with rfl | hlt
  · exact b.indentationEnd_le m
  · have hend := lineEnd_lt_indentationEnd hm hlt hn
    have hle := b.indentationEnd_le m
    have hle' := b.indentationEnd_le n
    omega

/-- Lines end in their order. -/
theorem lineEnd_le_lineEnd (hm : 1 ≤ m) (hmn : m ≤ n) (hn : n ≤ b.lineCount) :
    b.lineEnd m ≤ b.lineEnd n := by
  rcases Nat.eq_or_lt_of_le hmn with rfl | hlt
  · exact Nat.le_refl _
  · have hend := lineEnd_lt_indentationEnd hm hlt hn
    have hle := b.indentationEnd_le n
    omega

end Buffer

namespace Document

variable {d : Document} {first last line m : Nat}

/-- Whether the lines from `first` to `last` form a statement: each continues onto the next one, and
the statement is joined neither by the line before it nor by the line after it. -/
structure IsStatement (d : Document) (first last : Nat) : Prop where
  one_le : 1 ≤ first
  first_le : first ≤ last
  le_lineCount : last ≤ d.lineCount
  joined : ∀ k, first ≤ k → k < last → d.continues k = true
  start : first = 1 ∨ d.continues (first - 1) = false
  stop : last = d.lineCount ∨ d.continues last = false

/-! ### The two walks -/

/-- All lines from the start of a statement up to a line of it continue. -/
theorem continues_of_startFrom_le {k : Nat} (hlo : d.startFrom m ≤ k) (hhi : k < m) :
    d.continues k = true := by
  fun_induction startFrom d m with
  | case1 => omega
  | case2 => omega
  | case3 n hc ih =>
    by_cases hk : k = n + 1
    · exact hk ▸ hc
    · exact ih hlo (by omega)
  | case4 n hc => omega

/-- The lines between the two ends that are found from a line form a statement. -/
theorem isStatement_of_line (hm : 1 ≤ m) (hle : m ≤ d.lineCount) :
    d.IsStatement (d.statementStart m) (d.statementEnd m) := by
  have hstart := statementStart_le hm hle
  obtain ⟨hend, hcount⟩ := statementEnd_mem hm hle
  refine ⟨d.one_le_statementStart m, by omega, hcount, fun k hlo hhi => ?_, ?_, ?_⟩
  · -- lines before `m` were passed on the way back, the others on the way on
    by_cases hk : k < m
    · rw [statementStart_of_hasLine hm hle] at hlo
      exact continues_of_startFrom_le hlo hk
    · rw [statementEnd_of_hasLine hm hle] at hhi
      exact continues_of_lt_endFrom (by omega) hhi
  · rw [statementStart_of_hasLine hm hle]
    by_cases hone : d.startFrom m = 1
    · exact .inl hone
    · have hpos := one_le_startFrom (d := d) hm
      exact .inr (not_continues_of_startFrom (by omega))
  · by_cases hlast : d.statementEnd m = d.lineCount
    · exact .inl hlast
    · exact .inr (not_continues_statementEnd hm hle (by omega))

namespace IsStatement

variable (h : d.IsStatement first last)
include h

theorem mem (hlo : first ≤ m) (hhi : m ≤ last) : 1 ≤ m ∧ m ≤ d.lineCount :=
  ⟨Nat.le_trans h.one_le hlo, Nat.le_trans hhi h.le_lineCount⟩

/-- From every line of a statement its two ends are found. -/
theorem bounds_eq (hlo : first ≤ m) (hhi : m ≤ last) :
    d.statementStart m = first ∧ d.statementEnd m = last := by
  obtain ⟨hm, hle⟩ := h.mem hlo hhi
  have hfound := isStatement_of_line hm hle
  have hstart := statementStart_le hm hle
  obtain ⟨hend, hcount⟩ := statementEnd_mem hm hle
  constructor
  · -- whichever of the two starts came later, the line before it would continue
    by_contra hne
    rcases Nat.lt_or_gt_of_ne hne with hlt | hgt
    · have hbefore := hfound.joined (first - 1) (by omega) (by omega)
      have hpos := hfound.one_le
      rw [h.start.resolve_left (by omega)] at hbefore
      cases hbefore
    · have hbefore := h.joined (d.statementStart m - 1) (by omega) (by omega)
      have hpos := h.one_le
      rw [hfound.start.resolve_left (by omega)] at hbefore
      cases hbefore
  · by_contra hne
    rcases Nat.lt_or_gt_of_ne hne with hlt | hgt
    · have hafter := h.joined (d.statementEnd m) (by omega) hlt
      have hbound := h.le_lineCount
      rw [hfound.stop.resolve_left (by omega)] at hafter
      cases hafter
    · have hafter := hfound.joined last (by omega) hgt
      rw [h.stop.resolve_left (by omega)] at hafter
      cases hafter

/-- A statement with a line below the end of another one lies below it as a whole. -/
theorem last_lt_first {first' last' : Nat} (h' : d.IsStatement first' last') (hlt : last < m)
    (hhi : m ≤ last') : last < first' := by
  by_contra hge
  have hshared := (h'.bounds_eq (m := last) (by omega) (by omega)).2
  have hown := (h.bounds_eq h.first_le (Nat.le_refl last)).2
  omega

/-! ### How a statement starts -/

/-- Nothing is open at the start of a statement. -/
theorem lineStartState_eq : d.lineStartState first = {} :=
  lineStartState_of_not_continues h.one_le (Nat.le_trans h.first_le h.le_lineCount) h.start

/-- A statement that starts with a blank line or a comment has no other line. -/
theorem eq_of_isBlankOrComment (hblank : d.isBlankOrComment first = true) : last = first := by
  have hle := h.first_le
  have hnot := not_continues_of_isBlankOrComment h.one_le (Nat.le_trans hle h.le_lineCount) h.start
    hblank
  by_contra hne
  rw [h.joined first (Nat.le_refl _) (by omega)] at hnot
  cases hnot

/-! ### The span of a statement -/

/-- Every offset on a line of a statement has the span of that statement. -/
theorem statementBounds_eq {offset : Nat} (hlo : first ≤ d.buffer.lineOfOffset offset)
    (hhi : d.buffer.lineOfOffset offset ≤ last) :
    d.statementBounds offset = ⟨d.buffer.indentationEnd first, d.buffer.lineEnd last⟩ := by
  obtain ⟨hstart, hend⟩ := h.bounds_eq hlo hhi
  rw [statementBounds, hstart, hend]

end IsStatement

/-- The lines around an offset that form its statement. -/
theorem isStatement_of_offset (d : Document) (offset : Nat) :
    d.IsStatement (d.statementStart (d.buffer.lineOfOffset offset))
      (d.statementEnd (d.buffer.lineOfOffset offset)) :=
  isStatement_of_line (d.buffer.lineOfOffset_mem offset).1 (d.buffer.lineOfOffset_mem offset).2

end Document

/-- **Statements partition the lines.**  Every line lies between the first and the last line of its
statement, and from each line between these the same two are found.  At the first line of a statement
nothing is open, and if that line is blank or a comment it is the whole statement.  Offsets on the
lines of one statement have the same span, whose bounds are in order, and the span of a statement
ends before that of any later one starts. -/
theorem statements_partition (d : Document) :
    (∀ line, 1 ≤ line → line ≤ d.lineCount →
      (1 ≤ d.statementStart line ∧ d.statementStart line ≤ line) ∧
      (line ≤ d.statementEnd line ∧ d.statementEnd line ≤ d.lineCount) ∧
      (∀ m, d.statementStart line ≤ m → m ≤ d.statementEnd line →
        d.statementStart m = d.statementStart line ∧ d.statementEnd m = d.statementEnd line) ∧
      d.lineStartState (d.statementStart line) = {} ∧
      (d.statementStart line = line → d.isBlankOrComment line = true →
        d.statementEnd line = line)) ∧
    (∀ o, (d.statementBounds o).start ≤ (d.statementBounds o).stop) ∧
    (∀ o o', d.statementStart (d.buffer.lineOfOffset o) ≤ d.buffer.lineOfOffset o' →
      d.buffer.lineOfOffset o' ≤ d.statementEnd (d.buffer.lineOfOffset o) →
      d.statementBounds o' = d.statementBounds o) ∧
    (∀ o o', d.statementEnd (d.buffer.lineOfOffset o) < d.buffer.lineOfOffset o' →
      (d.statementBounds o).stop < (d.statementBounds o').start) := by
  refine ⟨fun line hline hle => ?_, fun o => ?_, fun o o' hlo hhi => ?_, fun o o' hlt => ?_⟩
  · have h := Document.isStatement_of_line hline hle
    refine ⟨⟨h.one_le, Document.statementStart_le hline hle⟩, Document.statementEnd_mem hline hle,
      fun m hlo hhi => h.bounds_eq hlo hhi, h.lineStartState_eq, fun hfirst hblank => ?_⟩
    rw [h.eq_of_isBlankOrComment (hfirst.symm ▸ hblank), hfirst]
  · have h := d.isStatement_of_offset o
    exact Buffer.indentationEnd_le_lineEnd h.one_le h.first_le h.le_lineCount
  · have h := d.isStatement_of_offset o
    rw [h.statementBounds_eq hlo hhi, Document.statementBounds]
  · have h := d.isStatement_of_offset o
    have h' := d.isStatement_of_offset o'
    obtain ⟨hone, hcount⟩ := d.buffer.lineOfOffset_mem o'
    have hbelow := h.last_lt_first h' hlt (Document.statementEnd_mem hone hcount).1
    exact Buffer.lineEnd_lt_indentationEnd (Nat.le_trans h.one_le h.first_le) hbelow
      (Nat.le_trans h'.first_le h'.le_lineCount)

/-- A call over two lines, the second of which is a comment within its brackets, and an assignment
with a blank line after its backslash. -/
theorem statements_partition_with_comment :
    (Document.ofText "f(\r\n# a \\\n)\nx = \\\n\ny".toList).statementStart 2 = 1 ∧
    (Document.ofText "f(\r\n# a \\\n)\nx = \\\n\ny".toList).statementEnd 2 = 3 ∧
    (Document.ofText "f(\r\n# a \\\n)\nx = \\\n\ny".toList).statementEnd 5 = 5 ∧
    (Document.ofText "f(\r\n# a \\\n)\nx = \\\n\ny".toList).statementStart 3 =
      (Document.ofText "f(\r\n# a \\\n)\nx = \\\n\ny".toList).statementStart 2 ∧
    ((Document.ofText "f(\r\n# a \\\n)\nx = \\\n\ny".toList).statementBounds 5).stop <
      ((Document.ofText "f(\r\n# a \\\n)\nx = \\\n\ny".toList).statementBounds 13).start := by
  have h := statements_partition (Document.ofText "f(\r\n# a \\\n)\nx = \\\n\ny".toList)
  refine ⟨by decide +kernel, by decide +kernel, by decide +kernel, ?_, ?_⟩
  · exact ((h.1 2 (by decide) (by decide +kernel)).2.2.1 3 (by decide +kernel)
      (by decide +kernel)).1
  · exact h.2.2.2 5 13 (by decide +kernel)

end Offside
