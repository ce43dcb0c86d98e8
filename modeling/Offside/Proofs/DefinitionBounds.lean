import Offside.Proofs.StatementMotions

/-!
# The bounds of a definition

From a decorator the definition is found by going down over decorators, and blank lines and comments
do not count.  The first decorator of a definition is found by going up, and there a blank line or a
comment ends the search.  So the bounds of the definition at an offset cover the statement there,
unless the statement is a decorator and something of this kind stands between it and the header.

* `Document.definitionAt?_indentationEnd`, `definitionAt?_decorator`: the definition at a header and
  at its decorators;
* `Document.Separated`, `firstDecorator_le_iff`: which decorators are reached going up;
* `definition_bounds_cover`.
-/

namespace Offside

/-- A line that defines a name is no decorator. -/
theorem isDecorator_of_definedName? {t : Text} (h : (definedName? t).isSome = true) :
    isDecorator t = false := by
  have hword : t.afterIndentation.afterAsync.word = "def".toList ∨
      t.afterIndentation.afterAsync.word = "class".toList := by
    unfold definedName? at h
    dsimp only at h
    split at h
    · next hname =>
      simp only [Bool.and_eq_true, Bool.or_eq_true, beq_iff_eq] at hname
      exact hname.1.1
    · cases h
  have hhead : ∃ c, t.afterIndentation.head? = some c ∧ c ≠ '@' := by
    by_cases hasync : t.afterIndentation.word = "async".toList
    · exact ⟨'a', Text.head?_of_word (r := "sync".toList) hasync, by decide⟩
    · rw [Text.afterAsync_of_word_ne hasync] at hword
      rcases hword with hdef | hclass
      · exact ⟨'d', Text.head?_of_word (r := "ef".toList) hdef, by decide⟩
      · exact ⟨'c', Text.head?_of_word (r := "lass".toList) hclass, by decide⟩
  obtain ⟨c, hc, hne⟩ := hhead
  simp [isDecorator, hc, hne]

namespace Document

variable {d : Document} {column header line m n offset statement : Nat}

/-! ### The definition at an offset -/

theorem isDecorator_of_isDefinition (h : d.isDefinition header = true) :
    isDecorator (d.buffer.lineText header) = false :=
  isDecorator_of_definedName? (Bool.and_eq_true_iff.1 h).1

/-- The definition at the start of its header. -/
theorem definitionAt?_indentationEnd (hheader : d.StartsCode header)
    (hdef : d.isDefinition header = true) :
    d.definitionAt? (d.buffer.indentationEnd header) = some header := by
  simp [definitionAt?, statementAt?_indentationEnd hheader, isDecorator_of_isDefinition hdef, hdef]

/-- The definition at the start of one of its decorators. -/
theorem definitionAt?_decorator (hline : d.StartsCode line)
    (hdecorator : isDecorator (d.buffer.lineText line) = true)
    (h : d.decoratedDefinition? line = some header) :
    d.definitionAt? (d.buffer.indentationEnd line) = some header := by
  simp [definitionAt?, statementAt?_indentationEnd hline, hdecorator, h]

theorem definitionBounds?_of_definitionAt? (h : d.definitionAt? offset = some header) :
    d.definitionBounds? offset = some (d.blockSpan (d.firstDecorator header) header) := by
  simp [definitionBounds?, h]

/-! ### Going up over decorators -/

/-- Whether a line is a decorator at a column. -/
def DecoratorAt (d : Document) (column line : Nat) : Prop :=
  d.isBlankOrComment line = false ∧ d.buffer.indentation line = column ∧
    isDecorator (d.buffer.lineText line) = true

/-- Going up passes a statement if all lines from it on belong to decorators. -/
theorem decoratorsFrom_le (hm : d.StartsCode m) (hle : m ≤ line) (hcount : line ≤ d.lineCount)
    (hn : line ≤ n) (hall : ∀ k, m ≤ k → k < line → d.DecoratorAt column (d.statementStart k)) :
    d.decoratorsFrom column n line ≤ m := by
  have hone := hm.mem.1
  induction n generalizing line with
  | zero => omega
  | succ n ih =>
    rcases Nat.eq_or_lt_of_le hle with rfl | hlt
    · exact (decoratorsFrom_mem hone hcount).2
    · have hstart := statementStart_le (d := d) (m := line - 1) (by omega) (by omega)
      have habove := hm.le_statementStart (n := line - 1) (by omega) (by omega)
      obtain ⟨hcode, hcolumn, hdecorator⟩ := hall (line - 1) (by omega) (by omega)
      rw [decoratorsFrom, if_neg (by simp [hcode, hcolumn, hdecorator]; omega)]
      exact ih habove (by omega) (by omega) fun k hk hka => hall k hk (by omega)

/-- All lines that are passed going up belong to decorators. -/
theorem decoratorAt_of_decoratorsFrom_le {k : Nat} (hcount : line ≤ d.lineCount)
    (hlo : d.decoratorsFrom column n line ≤ k) (hhi : k < line) :
    d.DecoratorAt column (d.statementStart k) := by
  induction n generalizing line with
  | zero =>
    have : line ≤ k := hlo
    omega
  | succ n ih =>
    rw [decoratorsFrom] at hlo
    split at hlo
    · omega
    · next hmore =>
      simp only [not_or, Bool.not_eq_true, ne_eq, not_not, Bool.not_eq_false'] at hmore
      obtain ⟨hline, hdecorator⟩ := hmore
      have hstart := statementStart_le (d := d) (m := line - 1) (by omega) (by omega)
      by_cases hk : k < d.statementStart (line - 1)
      · exact ih (by omega) hlo hk
      · have hend := (statementEnd_mem (d := d) (m := line - 1) (by omega) (by omega)).1
        have hsame := ((isStatement_of_line (d := d) (m := line - 1) (by omega) (by omega)).bounds_eq
          (Nat.le_of_not_lt hk) (by omega)).1
        rw [hsame]
        exact hdecorator

/-- Whether a blank line or a comment, and not one within a statement, stands between two lines. -/
def Separated (d : Document) (statement header : Nat) : Prop :=
  ∃ gap, statement < gap ∧ gap < header ∧ d.statementStart gap = gap ∧
    d.isBlankOrComment gap = true

/-- All lines between a decorator and its definition belong to decorators, if nothing separates the
two. -/
theorem decoratorAt_of_not_separated (hstatement : d.StartsCode statement)
    (hdecorator : isDecorator (d.buffer.lineText statement) = true)
    (h : d.decoratedDefinition? statement = some header)
    (hseparated : ¬ d.Separated statement header) {k : Nat} (hlo : statement ≤ k)
    (hhi : k < header) : d.DecoratorAt (d.buffer.indentation header) (d.statementStart k) := by
  obtain ⟨⟨hheader, -⟩, -⟩ := decoratedDefinition?_spec hstatement h
  have hone : 1 ≤ k := Nat.le_trans hstatement.mem.1 hlo
  have hcount : k ≤ d.lineCount := Nat.le_trans (Nat.le_of_lt hhi) hheader.mem.2
  have hstart := statementStart_le hone hcount
  have hle := hstatement.le_statementStart hlo hcount
  have hself : d.statementStart (d.statementStart k) = d.statementStart k :=
    ((isStatement_of_line hone hcount).bounds_eq (Nat.le_refl _)
      (isStatement_of_line hone hcount).first_le).1
  have hcode : d.isBlankOrComment (d.statementStart k) = false := by
    by_contra hblank
    refine hseparated ⟨d.statementStart k, ?_, by omega, hself, by simpa using hblank⟩
    rcases Nat.eq_or_lt_of_le hle with heq | hlt
    · rw [← heq, hstatement.2] at hblank
      exact absurd rfl hblank
    · exact hlt
  -- a decorator further down has the same definition, and so the same column
  obtain ⟨hbetween, hsame⟩ := decoratedDefinition?_of_between hstatement hdecorator h
    ⟨hself, hcode⟩ hle (by omega)
  exact ⟨hcode, (decoratedDefinition?_spec ⟨hself, hcode⟩ hsame).2.1.symm, hbetween⟩

/-- Going up from a definition reaches one of its decorators exactly if nothing separates the
two. -/
theorem firstDecorator_le_iff (hstatement : d.StartsCode statement)
    (hdecorator : isDecorator (d.buffer.lineText statement) = true)
    (h : d.decoratedDefinition? statement = some header) :
    d.firstDecorator header ≤ statement ↔ ¬ d.Separated statement header := by
  obtain ⟨⟨hheader, hlt⟩, -⟩ := decoratedDefinition?_spec hstatement h
  have hcount := hheader.mem.2
  constructor
  · rintro hle ⟨gap, hlo, hhi, hself, hblank⟩
    obtain ⟨hcode, -⟩ :=
      decoratorAt_of_decoratorsFrom_le hcount (Nat.le_trans hle (Nat.le_of_lt hlo)) hhi
    rw [hself, hblank] at hcode
    cases hcode
  · intro hseparated
    exact decoratorsFrom_le hstatement (Nat.le_of_lt hlt) hcount (Nat.le_refl header)
      fun k hlo hhi => decoratorAt_of_not_separated hstatement hdecorator h hseparated hlo hhi

end Document

/-- **The bounds of a definition cover its statements and the decorators next to it.**  The bounds
at an offset are those of a definition, and they cover the whole statement at the offset, unless a
blank line or a comment separates that statement from the header further down; then they do not.
They are the same at the start of the header and at the start of every decorator that leads to the
header. -/
theorem definition_bounds_cover (d : Document) (offset : Nat) (span : Span)
    (h : d.definitionBounds? offset = some span) :
    ∃ statement header, d.statementAt? offset = some statement ∧
      d.definitionAt? offset = some header ∧
      (span.start ≤ d.buffer.indentationEnd statement ∧
          d.buffer.lineEnd (d.statementEnd statement) ≤ span.stop ↔
        ¬ d.Separated statement header) ∧
      d.definitionBounds? (d.buffer.indentationEnd header) = some span ∧
      ∀ line, d.StartsCode line → isDecorator (d.buffer.lineText line) = true →
        d.decoratedDefinition? line = some header →
        d.definitionBounds? (d.buffer.indentationEnd line) = some span := by
  obtain ⟨header, hheader, hspan⟩ := Option.bind_eq_some_iff.1 h
  cases hspan
  obtain ⟨statement, hstatement, ⟨hcode, hdef⟩, hcases⟩ := Document.definitionAt?_spec hheader
  have hstart := Document.startsCode_of_statementAt? hstatement
  obtain ⟨hfirst, hfirst'⟩ := Document.firstDecorator_mem hcode.mem.1 hcode.mem.2
  refine ⟨statement, header, hstatement, hheader, ?_, ?_, ?_⟩
  · rw [Document.start_blockSpan_le_iff hfirst (Nat.le_trans hfirst' hcode.mem.2) hstart]
    rcases hcases with hblock | ⟨hdecorator, hdecorated⟩
    · -- in the block there is nothing between the statement and a header further down
      have hend := Document.lineEnd_le_stop_blockSpan (d.firstDecorator header) hcode hstart
        (.inl hblock)
      refine iff_of_true ⟨Nat.le_trans hfirst' hblock.1, hend⟩ ?_
      rintro ⟨gap, hlo, hhi, -⟩
      have := hblock.1
      omega
    · obtain ⟨⟨-, hlt⟩, -⟩ := Document.decoratedDefinition?_spec hstart hdecorated
      rw [and_iff_left (Document.lineEnd_le_stop_blockSpan _ hcode hstart (.inr hlt))]
      exact Document.firstDecorator_le_iff hstart hdecorator hdecorated
  · exact Document.definitionBounds?_of_definitionAt?
      (Document.definitionAt?_indentationEnd hcode hdef)
  · intro line hline hdecorator hdecorated
    exact Document.definitionBounds?_of_definitionAt?
      (Document.definitionAt?_decorator hline hdecorator hdecorated)

/-- A decorator whose brackets hold a blank line, with another one next to it and the header after
that. -/
theorem definition_bounds_cover_with_brackets :
    let d := Document.ofText "@a(\n\n)\n@b\ndef f():\n  c\n".toList
    (d.definitionBounds? 5 = some ⟨0, 22⟩ ∧ d.statementAt? 5 = some 1 ∧
        d.definitionAt? 5 = some 5) ∧
      ¬ d.Separated 1 5 ∧
      (d.decoratedDefinition? 4 = some 5 ∧ d.definitionBounds? (d.buffer.indentationEnd 4) =
        some ⟨0, 22⟩) := by
  intro d
  have hbounds : d.definitionBounds? 5 = some ⟨0, 22⟩ := by decide +kernel
  have hat : d.statementAt? 5 = some 1 := by decide +kernel
  have hheader : d.definitionAt? 5 = some 5 := by decide +kernel
  have hdecorated : d.decoratedDefinition? 4 = some 5 := by decide +kernel
  obtain ⟨statement, header, hstatement, hdef, hcovers, -, hsame⟩ :=
    definition_bounds_cover d 5 ⟨0, 22⟩ hbounds
  rw [hat] at hstatement
  rw [hheader] at hdef
  cases hstatement
  cases hdef
  refine ⟨⟨hbounds, hat, hheader⟩, hcovers.1 ⟨by decide +kernel, by decide +kernel⟩, hdecorated, ?_⟩
  exact hsame 4 (by decide +kernel) (by decide +kernel) hdecorated

/-- A decorator that a blank line separates from its definition lies before the bounds that are
found from it. -/
theorem definition_bounds_leave_out_decorator :
    let d := Document.ofText "@a\n\ndef f():\n  pass\n".toList
    d.statementAt? 0 = some 1 ∧ d.definitionBounds? 0 = some ⟨4, 19⟩ ∧
      ¬ (4 ≤ d.buffer.indentationEnd 1 ∧ d.buffer.lineEnd (d.statementEnd 1) ≤ 19) := by
  intro d
  exact ⟨by decide +kernel, by decide +kernel, by decide +kernel⟩

end Offside
