import Offside.Proofs.FirstVisible
import Offside.Proofs.Shift
import Offside.Proofs.StatementMotions

/-!
# The header that a dedent keyword continues

A keyword such as `else` is matched by going up over the statements until one is not deeper.  What
is found can be said without a walk: it is the last statement above that is not deeper, and it
counts only if it stands at the same column and starts with a keyword that can be continued.  The
block that it heads is measured by a walk in the other direction, and that walk stops just before
the keyword.

* `Document.IsDedentHeader`: the header that the keyword at a line continues;
* `DedentKeyword.atLineStart?_eq_some_iff`: at most one keyword starts a line;
* `Document.dedentHeader?_eq_some_iff`, `dedentMatch?_eq_some_iff`: the walk finds it;
* `Document.nextStatement?_blockEnd`: where the block of a header ends;
* `dedent_match_is_exact`.
-/

namespace Offside

/-! ### Keywords at the start of a line -/

namespace DedentKeyword

/-- No keyword begins another one. -/
theorem eq_of_isPrefix {k k' : DedentKeyword} (h : k.name.toList <+: k'.name.toList) : k = k' := by
  revert h
  cases k <;> cases k' <;> decide

/-- A text starts with at most one keyword. -/
theorem eq_of_startsWithWord {t : Text} {k k' : DedentKeyword}
    (h : startsWithWord t k.name.toList = true) (h' : startsWithWord t k'.name.toList = true) :
    k = k' := by
  have hbegins : ∀ {k : DedentKeyword}, startsWithWord t k.name.toList = true →
      k.name.toList <+: t := by
    intro k hk
    exact List.isPrefixOf_iff_prefix.1 (Bool.and_eq_true_iff.1 hk).1
  rcases List.prefix_or_prefix_of_prefix (hbegins h) (hbegins h') with hle | hle
  · exact eq_of_isPrefix hle
  · exact (eq_of_isPrefix hle).symm

/-- The order in which keywords are enabled makes no difference. -/
theorem atLineStart?_eq_some_iff {enabled : List DedentKeyword} {line : Text} {k : DedentKeyword} :
    atLineStart? enabled line = some k ↔
      k ∈ enabled ∧ startsWithWord line.trimStart k.name.toList = true := by
  rw [atLineStart?]
  constructor
  · intro h
    have hword := List.find?_some h
    exact ⟨List.mem_of_find?_eq_some h, hword⟩
  · rintro ⟨hmem, hword⟩
    cases hfind : enabled.find? fun k => startsWithWord line.trimStart k.name.toList with
    | none => exact absurd hword (List.find?_eq_none.1 hfind k hmem)
    | some k' =>
      have hword' := List.find?_some hfind
      rw [eq_of_startsWithWord hword hword']

theorem exists_name (k : DedentKeyword) : ∃ c r, k.name.toList = c :: r ∧ c ≠ '#' := by
  cases k <;> exact ⟨_, _, rfl, by decide⟩

end DedentKeyword

/-- Searching a list that goes down finds the greatest element with a property. -/
theorem find?_eq_some_iff_isGreatest {p : Nat → Bool} {l : List Nat} (h : l.Pairwise (· > ·))
    {m : Nat} : l.find? p = some m ↔ IsGreatest {k | k ∈ l ∧ p k = true} m := by
  rw [← List.head?_filter, head?_eq_some_iff_of_pairwise Nat.lt_asymm (h.filter p)]
  simp only [IsGreatest, mem_upperBounds, List.mem_filter, Set.mem_ofPred_eq, not_lt]

namespace Document

variable {d : Document} {line header : Nat} {k : DedentKeyword}

/-! ### The header -/

/-- Whether a header is the one that the keyword at a line continues.  The line exists, and a
statement starts there with an enabled keyword; the header is the last statement with code above it
that is not deeper; it stands at the same column, and the block keyword that it starts with is one
that the dedent keyword can follow. -/
structure IsDedentHeader (d : Document) (line header : Nat) : Prop where
  mem : 1 ≤ line ∧ line ≤ d.lineCount
  start : d.statementStart line = line
  nearest : IsGreatest {s | d.StartsCode s ∧ s < line ∧
    d.buffer.indentation s ≤ d.buffer.indentation line} header
  level : d.buffer.indentation header = d.buffer.indentation line
  keyword : ∃ k ∈ d.settings.dedentKeywords,
    startsWithWord (d.buffer.lineText line).trimStart k.name.toList = true ∧
    ∃ opener ∈ k.openers d.settings.chainedHandlers,
      blockKeyword? (d.buffer.lineText header) = some opener

theorem dedentKeyword?_eq_some_iff :
    d.dedentKeyword? line = some k ↔ (1 ≤ line ∧ line ≤ d.lineCount) ∧
      d.statementStart line = line ∧ k ∈ d.settings.dedentKeywords ∧
      startsWithWord (d.buffer.lineText line).trimStart k.name.toList = true := by
  rw [← DedentKeyword.atLineStart?_eq_some_iff, dedentKeyword?, Option.ite_none_right_eq_some,
    Bool.and_eq_true_iff, Buffer.hasLine_iff, beq_iff_eq, and_assoc]
  rfl

theorem closes_iff : d.closes k header = true ↔
    ∃ opener ∈ k.openers d.settings.chainedHandlers,
      blockKeyword? (d.buffer.lineText header) = some opener := by
  rw [closes, Option.any_eq_true]
  simp only [DedentKeyword.closes, List.contains_iff_mem, and_comm]

/-- A line that starts with a dedent keyword has code on it. -/
theorem startsCode_of_dedentKeyword? (h : d.dedentKeyword? line = some k) : d.StartsCode line := by
  obtain ⟨-, hstart, -, hword⟩ := dedentKeyword?_eq_some_iff.1 h
  obtain ⟨c, r, hname, hc⟩ := k.exists_name
  obtain ⟨rest, hrest⟩ := List.isPrefixOf_iff_prefix.1 (Bool.and_eq_true_iff.1 hword).1
  refine ⟨hstart, ?_⟩
  rw [isBlankOrComment, ← hrest, hname]
  simp [hc]

/-- The last statement above a line that is not deeper than a column. -/
theorem find?_statementsAbove_eq_some_iff {column : Nat} (hline : line ≤ d.lineCount) :
    ((d.statementsAbove line).find? fun l => decide (d.buffer.indentation l ≤ column)) =
        some header ↔
      IsGreatest {s | d.StartsCode s ∧ s < line ∧ d.buffer.indentation s ≤ column} header := by
  rw [find?_eq_some_iff_isGreatest (d.pairwise_statementsAbove line)]
  simp only [mem_statementsAbove_iff (Nat.le_succ_of_le hline), decide_eq_true_eq, and_assoc]

theorem dedentHeader?_eq_some_iff :
    d.dedentHeader? line = some header ↔ d.IsDedentHeader line header := by
  simp only [dedentHeader?, Option.bind_eq_bind, Option.bind_eq_some_iff,
    Option.ite_none_right_eq_some, Option.some_inj]
  constructor
  · rintro ⟨k, hk, found, hfound, ⟨hlevel, hcloses⟩, rfl⟩
    obtain ⟨hmem, hstart, henabled, hword⟩ := dedentKeyword?_eq_some_iff.1 hk
    exact ⟨hmem, hstart, (find?_statementsAbove_eq_some_iff hmem.2).1 hfound, hlevel, k, henabled,
      hword, closes_iff.1 hcloses⟩
  · rintro ⟨hmem, hstart, hnearest, hlevel, k, henabled, hword, hopener⟩
    exact ⟨k, dedentKeyword?_eq_some_iff.2 ⟨hmem, hstart, henabled, hword⟩, header,
      (find?_statementsAbove_eq_some_iff hmem.2).2 hnearest, ⟨hlevel, closes_iff.2 hopener⟩, rfl⟩

theorem dedentMatch?_eq_some_iff {offset : Nat} :
    d.dedentMatch? line = some offset ↔
      ∃ header, d.IsDedentHeader line header ∧ d.buffer.indentationEnd header = offset := by
  rw [dedentMatch?_eq, Option.map_eq_some_iff]
  simp only [dedentHeader?_eq_some_iff]

namespace IsDedentHeader

variable (h : d.IsDedentHeader line header)
include h

theorem startsCode : d.StartsCode line := by
  obtain ⟨k, henabled, hword, -⟩ := h.keyword
  exact startsCode_of_dedentKeyword?
    (dedentKeyword?_eq_some_iff.2 ⟨h.mem, h.start, henabled, hword⟩)

/-- Every statement between the header and the line is deeper than both. -/
theorem deeper {s : Nat} (hs : d.StartsCode s) (hlo : header < s) (hhi : s < line) :
    d.buffer.indentation line < d.buffer.indentation s := by
  by_contra hle
  have := h.nearest.2 ⟨hs, hhi, Nat.le_of_not_lt hle⟩
  omega

theorem firstVisible_eq : d.buffer.firstVisible header = d.buffer.indentationEnd header := by
  obtain ⟨k, -, -, opener, -, hopener⟩ := h.keyword
  exact Buffer.firstVisible_of_blockKeyword? (Option.isSome_of_eq_some hopener)

end IsDedentHeader

/-! ### The end of its block -/

/-- After the end of a block comes the first statement that is not deeper than its header. -/
theorem nextStatement?_blockEnd (hheader : d.StartsCode header) (hline : d.StartsCode line)
    (hlt : header < line) (hle : d.buffer.indentation line ≤ d.buffer.indentation header)
    (hbetween : ∀ s, d.StartsCode s → header < s → s < line →
      d.buffer.indentation header < d.buffer.indentation s) :
    d.nextStatement? (d.blockEnd header) = some line := by
  obtain ⟨hlo, hhi⟩ := blockEnd_mem hheader.mem.1 hheader.mem.2
  refine (nextStatement?_eq_some_iff (Nat.le_trans hheader.mem.1 hlo) hhi).2 ⟨hline, ?_, ?_⟩
  · by_contra hge
    have hblock := (le_blockEnd_iff hheader hline (Nat.le_of_lt hlt)).1 (Nat.le_of_not_lt hge)
    have := hblock.2 line hline hlt (Nat.le_refl line)
    omega
  · rintro s hs ⟨hend, hsl⟩
    have hblock : d.InBlock header s :=
      ⟨by omega, fun t ht hlt' hts => hbetween t ht hlt' (by omega)⟩
    have := (le_blockEnd_iff hheader hs (by omega)).2 hblock
    omega

end Document

/-- **A dedent keyword is matched exactly, and where the block before it ends.**  The match of a
line is the first visible character of a header exactly if the header is the one that the keyword at
the line continues: the line exists and is the first one of its statement, it starts with an enabled
keyword, and the last statement with code above it that is not deeper stands at the same column and
starts with a block keyword that the dedent keyword can follow.  The next statement after the end of
the block of that header is then the line. -/
theorem dedent_match_is_exact (d : Document) (line : Nat) :
    (∀ offset, d.dedentMatch? line = some offset ↔
      ∃ header, d.IsDedentHeader line header ∧ d.buffer.firstVisible header = offset) ∧
    ∀ header, d.IsDedentHeader line header →
      d.nextStatement? (d.blockEnd header) = some line := by
  refine ⟨fun offset => ?_, fun header h => ?_⟩
  · rw [Document.dedentMatch?_eq_some_iff]
    refine exists_congr fun header => and_congr_right fun h => ?_
    rw [h.firstVisible_eq]
  · obtain ⟨⟨hheader, hlt, -⟩, -⟩ := h.nearest
    have hlevel := h.level
    refine Document.nextStatement?_blockEnd hheader h.startsCode hlt (by omega) ?_
    intro s hs hlo hhi
    have := h.deeper hs hlo hhi
    omega

/-- A keyword after a blank line, a comment and a statement whose last line goes back to the first
column in brackets. -/
theorem dedent_match_is_exact_past_brackets :
    let d := Document.ofText "try:\n  a\n\n# b\n  if c: f(\n)\nexcept E:\n".toList
    d.dedentMatch? 7 = some 0 ∧ d.blockEnd 1 = 6 ∧
      ∃ header, d.IsDedentHeader 7 header ∧ d.buffer.firstVisible header = 0 ∧
        d.nextStatement? (d.blockEnd header) = some 7 := by
  intro d
  have hmatch : d.dedentMatch? 7 = some 0 := by decide +kernel
  obtain ⟨hexact, hend⟩ := dedent_match_is_exact d 7
  obtain ⟨header, h, hoffset⟩ := (hexact 0).1 hmatch
  exact ⟨hmatch, by decide +kernel, header, h, hoffset, hend header h⟩

end Offside
