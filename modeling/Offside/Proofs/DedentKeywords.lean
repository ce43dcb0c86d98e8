import Offside.Proofs.DedentMatch
import Offside.Proofs.StatusContinuation

/-!
# Dedent keywords and block keywords

A line is read for a dedent keyword after all its white space, and the keyword ends where no
identifier goes on.  It is read for a block keyword after its indentation, and the keyword ends with
the word.  Every dedent keyword is a block keyword, so the two readings can differ in two places
only: before the keyword, by white space that is no indentation, and after it, by a mark, a
connector or a joiner, with which a word goes on.

* `isWordMark`, `isWordChar_eq_false`: what a word is made of;
* `DedentKeyword.blockKeyword?_eq`: the block keyword on a line with a dedent keyword;
* `Document.ReadsAs`: how the structure of a document takes a line with a block keyword;
* `dedent_keywords_begin_blocks`.
-/

namespace Offside

/-! ### Words -/

/-- The marks, connectors and joiners that a word can go on with, by edition 16 of Unicode. -/
def isWordMark (c : Char) : Bool :=
  !Property.newInEdition17.contains c.toNat &&
    (Property.mark.contains c.toNat || Property.connectorPunctuation.contains c.toNat ||
      c.toNat == 0x200C || c.toNat == 0x200D)

/-- A word is made of what identifiers are made of, and of marks. -/
theorem isWordChar_eq_false {c : Char} (hother : isIdentifierChar c = false)
    (hmark : isWordMark c = false) : isWordChar c = false := by
  unfold isIdentifierChar isAlphanumeric at hother
  unfold isWordMark at hmark
  unfold isWordChar
  by_cases hascii : c.toNat < 128
  · rw [if_pos hascii] at hother ⊢
    exact hother
  · rw [if_neg hascii] at hother ⊢
    simp only [Bool.or_eq_false_iff, Bool.and_eq_false_iff] at hother hmark ⊢
    tauto

/-- A run of word characters with no other one after it is a word. -/
theorem Text.word_append {w r : Text} (hw : ∀ c ∈ w, isWordChar c = true)
    (hr : r.head?.any isWordChar = false) : (w ++ r).word = w := by
  have hstop : r.takeWhile isWordChar = [] := by
    cases r with
    | nil => rfl
    | cons c r => exact List.takeWhile_cons_of_neg (by simpa using hr)
  rw [Text.word, List.takeWhile_append_of_pos hw, hstop, List.append_nil]

/-! ### Spellings -/

namespace BlockKeyword

theorem ofWord?_name (b : BlockKeyword) : ofWord? b.name.toList = some b := by
  cases b <;> decide

theorem name_injective : Function.Injective name := by
  intro a b h
  have hword : ofWord? a.name.toList = ofWord? b.name.toList := by rw [h]
  rw [ofWord?_name, ofWord?_name] at hword
  exact Option.some.inj hword

/-- A line whose first word is a block keyword that needs no subject starts with that keyword. -/
theorem blockKeyword?_of_word {b : BlockKeyword} {line : Text} (hsoft : b.isSoft = false)
    (h : line.afterIndentation.word = b.name.toList) : blockKeyword? line = some b := by
  have hasync : line.afterIndentation.word ≠ "async".toList := by
    rw [h]
    cases b <;> decide
  simp only [blockKeyword?, blockKeywordEnd?, Text.afterAsync_of_word_ne hasync, h, ofWord?_name,
    hsoft, Bool.false_and, Bool.false_eq_true, if_false, Option.map_some]

end BlockKeyword

namespace DedentKeyword

/-- A dedent keyword is a block keyword that needs no subject. -/
theorem exists_blockKeyword (k : DedentKeyword) :
    ∃ b : BlockKeyword, b.name = k.name ∧ b.isSoft = false := by
  cases k with
  | else_ => exact ⟨.else_, rfl, rfl⟩
  | elif => exact ⟨.elif, rfl, rfl⟩
  | except => exact ⟨.except, rfl, rfl⟩
  | finally_ => exact ⟨.finally_, rfl, rfl⟩

theorem isWordChar_of_mem_name (k : DedentKeyword) : ∀ c ∈ k.name.toList, isWordChar c = true := by
  have hall : k.name.toList.all isWordChar = true := by cases k <;> decide
  exact List.all_eq_true.1 hall

/-- The text after a dedent keyword at the start of a line. -/
def after (k : DedentKeyword) (line : Text) : Text := line.trimStart.drop k.name.toList.length

variable {enabled : List DedentKeyword} {line : Text} {k : DedentKeyword}

/-- A dedent keyword is the first word of its line, unless the word goes on with a mark. -/
theorem word_trimStart (h : atLineStart? enabled line = some k)
    (hmark : (k.after line).head?.any isWordMark = false) :
    line.trimStart.word = k.name.toList := by
  obtain ⟨hname, hend⟩ := Bool.and_eq_true_iff.1 (atLineStart?_eq_some_iff.1 h).2
  have hsplit : k.name.toList ++ k.after line = line.trimStart :=
    List.prefix_iff_eq_append.1 (List.isPrefixOf_iff_prefix.1 hname)
  have hstop : (k.after line).head?.any isWordChar = false := by
    cases hhead : (k.after line).head? with
    | none => rfl
    | some c =>
      rw [hhead] at hmark
      rw [← after, hhead] at hend
      exact isWordChar_eq_false (by simpa using hend) hmark
  rw [← hsplit, Text.word_append k.isWordChar_of_mem_name hstop]

/-- On a line with a dedent keyword there is that block keyword if only indentation stands before
it, and otherwise there is none. -/
theorem blockKeyword?_eq (h : atLineStart? enabled line = some k)
    (hmark : (k.after line).head?.any isWordMark = false) :
    (blockKeyword? line).map BlockKeyword.name = if line.IsIndented then some k.name else none := by
  split
  · next hindented =>
    obtain ⟨b, hname, hsoft⟩ := k.exists_blockKeyword
    have hword : line.afterIndentation.word = b.name.toList := by
      rw [hindented.afterIndentation_eq, word_trimStart h hmark, hname]
    rw [BlockKeyword.blockKeyword?_of_word hsoft hword, Option.map_some, hname]
  · next hother =>
    rw [Option.map_eq_none_iff, ← Option.not_isSome_iff_eq_none]
    exact fun hsome => hother (Text.isIndented_of_blockKeyword? hsome)

end DedentKeyword

/-! ### Lines with a dedent keyword -/

namespace Document

variable {d : Document} {line previous : Nat} {k : DedentKeyword} {name : String}

/-- How the structure of a document takes a line that starts with the block keyword of a spelling.
A statement starts there, which is a header exactly if it ends with a colon; the dedent keywords that
can continue it are those that name the spelling among their openers; and as a header it stands at
the keyword. -/
structure ReadsAs (d : Document) (line : Nat) (name : String) : Prop where
  start : d.statementStart line = line
  keyword : (blockKeyword? (d.buffer.lineText line)).map BlockKeyword.name = some name
  isBlockHeader : d.isBlockHeader line = d.endsWithColon line (d.statementEnd line)
  closes : ∀ k, d.closes k line =
    ((k.openers d.settings.chainedHandlers).map BlockKeyword.name).contains name
  blockHeader? : d.blockHeader? line =
    if d.endsWithColon line (d.statementEnd line) then some (d.buffer.firstVisible line) else none

theorem readsAs_of_blockKeyword? (hstart : d.statementStart line = line)
    (hkeyword : (blockKeyword? (d.buffer.lineText line)).map BlockKeyword.name = some name) :
    d.ReadsAs line name := by
  obtain ⟨b, hb, hname⟩ := Option.map_eq_some_iff.1 hkeyword
  have hsome : (blockKeyword? (d.buffer.lineText line)).isSome = true := by rw [hb]; rfl
  have hheader : d.isBlockHeader line = d.endsWithColon line (d.statementEnd line) := by
    simp only [isBlockHeader, hstart, hsome, Bool.true_and]
  refine ⟨hstart, hkeyword, hheader, fun k => ?_, ?_⟩
  · rw [Bool.eq_iff_iff, closes_iff, List.contains_iff_mem, ← hname,
      List.mem_map_of_injective BlockKeyword.name_injective, hb]
    simp
  · simp only [blockHeader?, hstart, hheader, Buffer.firstVisible_of_blockKeyword? hsome]

/-- A line that goes by the statement before it starts a statement. -/
theorem statementStart_of_status_afterLine (hline : 1 ≤ line ∧ line ≤ d.lineCount)
    (h : d.status line = .afterLine previous) : d.statementStart line = line := by
  have hle := statementStart_le hline.1 hline.2
  by_contra hne
  have hone := d.one_le_statementStart line
  obtain ⟨m, rfl⟩ : ∃ m, line = m + 1 := ⟨line - 1, by omega⟩
  have hcontinues := (continues_iff_statementStart_lt (by omega) hline.2).2
    (Nat.lt_of_le_of_ne hle hne)
  rw [continues, continuation_eq (by omega) hline.2, h] at hcontinues
  cases hcontinues

/-- A dedent keyword after a statement that begins no block goes one level back. -/
theorem computedIndentation_of_dedentKeyword (hline : 1 ≤ line ∧ line ≤ d.lineCount)
    (hstatus : d.status line = .afterLine previous)
    (hk : DedentKeyword.atLineStart? d.settings.dedentKeywords (d.buffer.lineText line) = some k) :
    d.computedIndentation line = d.buffer.indentationAt previous - d.indentUnit := by
  rw [computedIndentation, report, Buffer.clampLine_of_hasLine hline.1 hline.2, hstatus]
  simp only [columnFor, afterLineColumn, hk]

end Document

/-- **A dedent keyword is read as a block keyword exactly if only indentation stands before it.**
On a line that starts with a dedent keyword after white space, and where the word does not go on with
a mark, there is a block keyword of the same spelling if the white space is made of spaces, tabs and
form feeds, and no block keyword at all if it is not.  So a line that is dedented for its keyword, and
has only indentation before it, is the start of a statement with that keyword for the header test, for
the table of the keywords that can continue it, and for the search for blocks. -/
theorem dedent_keywords_begin_blocks :
    (∀ (line : Text) (k : DedentKeyword),
      DedentKeyword.atLineStart? DedentKeyword.all line = some k →
      (k.after line).head?.any isWordMark = false →
      (blockKeyword? line).map BlockKeyword.name = if line.IsIndented then some k.name else none) ∧
    ∀ (d : Document) (line previous : Nat) (k : DedentKeyword),
      1 ≤ line ∧ line ≤ d.lineCount → d.status line = .afterLine previous →
      DedentKeyword.atLineStart? d.settings.dedentKeywords (d.buffer.lineText line) = some k →
      (k.after (d.buffer.lineText line)).head?.any isWordMark = false →
      (d.buffer.lineText line).IsIndented →
      d.computedIndentation line = d.buffer.indentationAt previous - d.indentUnit ∧
        d.ReadsAs line k.name := by
  refine ⟨fun line k => DedentKeyword.blockKeyword?_eq, ?_⟩
  intro d line previous k hline hstatus hk hmark hindented
  have hkeyword := DedentKeyword.blockKeyword?_eq hk hmark
  rw [if_pos hindented] at hkeyword
  exact ⟨Document.computedIndentation_of_dedentKeyword hline hstatus hk,
    Document.readsAs_of_blockKeyword?
      (Document.statementStart_of_status_afterLine hline hstatus) hkeyword⟩

/-- An `else` with a form feed in its indentation and a gap before its colon. -/
theorem dedent_keywords_begin_blocks_after_form_feed :
    let d := Document.ofText "if a:\n    b\n  \x0c  else :\n    c\n".toList
    d.computedIndentation 3 = 0 ∧ d.isBlockHeader 3 = true ∧
      d.computedIndentation 3 = d.buffer.indentationAt 10 - d.indentUnit ∧
      d.ReadsAs 3 "else" ∧
      (blockKeyword? "\x0celse :".toList).map BlockKeyword.name =
        if Text.IsIndented "\x0celse :".toList then some "else" else none := by
  intro d
  obtain ⟨hline, hdocument⟩ := dedent_keywords_begin_blocks
  obtain ⟨hcolumn, hreads⟩ := hdocument d 3 10 .else_ (by decide +kernel) (by decide +kernel)
    (by decide +kernel) (by decide +kernel) (by decide +kernel)
  exact ⟨by decide +kernel, by decide +kernel, hcolumn, hreads,
    hline _ .else_ (by decide +kernel) (by decide +kernel)⟩

/-- A no-break space before `else`, and an accent on its last letter: the line has the dedent keyword
and no block keyword.  A document moves the first of these lines one level back, and takes it for no
header of a block. -/
theorem dedent_keyword_without_block_keyword :
    let d := Document.ofText "if a:\n    b\n\u00a0else:\n    c\n".toList
    (DedentKeyword.atLineStart? DedentKeyword.all "\u00a0else:".toList = some .else_ ∧
      blockKeyword? "\u00a0else:".toList = none) ∧
    (DedentKeyword.atLineStart? DedentKeyword.all "else\u0301:".toList = some .else_ ∧
      blockKeyword? "else\u0301:".toList = none) ∧
    (d.status 3 = .afterLine 10 ∧ d.computedIndentation 3 = 0 ∧ d.isBlockHeader 3 = false) ∧
    ¬ ∀ (line : Text) (k : DedentKeyword),
      DedentKeyword.atLineStart? DedentKeyword.all line = some k →
      (blockKeyword? line).map BlockKeyword.name = some k.name := by
  intro d
  have hspace : DedentKeyword.atLineStart? DedentKeyword.all "\u00a0else:".toList = some .else_ := by
    decide +kernel
  have hnone : blockKeyword? "\u00a0else:".toList = none := by decide +kernel
  refine ⟨⟨hspace, hnone⟩, ⟨by decide +kernel, by decide +kernel⟩, by decide +kernel, ?_⟩
  intro hall
  have hsome := hall _ _ hspace
  rw [hnone] at hsome
  cases hsome

end Offside
