import Offside.Proofs.Lexical.Entries

/-!
# Documents that agree above a line

Two documents with the same rows above a line have the same lines there, and the scanner says the
same of them: it never looks past the line feed at the end of the rows above.

* `AgreeAbove`: the same rows above a line, in the same columns;
* `AgreeAbove.line_eq`, `lineOfOffset_eq`, `column_eq`: the lines above, and the offsets on them;
* `AgreeAbove.stateAt_eq`, `codeCharsOfLines_eq`: what the scanner says of them.
-/

namespace Offside

open Lexical
open Text (size)

/-- Two documents with the same rows above a line that both have, counted in the same columns. -/
structure AgreeAbove (d e : Document) (line : Nat) : Prop where
  one_le : 1 ≤ line
  le_left : line ≤ d.lineCount
  le_right : line ≤ e.lineCount
  rows : d.text.rows.take (line - 1) = e.text.rows.take (line - 1)
  tabWidth : d.buffer.tabWidth = e.buffer.tabWidth

namespace AgreeAbove

variable {d e : Document} {line m : Nat}

theorem of_rows {above below below' : List Text} {row row' : Text}
    (hd : d.text.rows = above ++ row :: below) (he : e.text.rows = above ++ row' :: below')
    (ht : d.buffer.tabWidth = e.buffer.tabWidth) : AgreeAbove d e (above.length + 1) where
  one_le := by omega
  le_left := Buffer.length_le_lineCount hd
  le_right := Buffer.length_le_lineCount he
  rows := by simp [hd, he]
  tabWidth := ht

theorem symm (h : AgreeAbove d e line) : AgreeAbove e d line :=
  ⟨h.one_le, h.le_right, h.le_left, h.rows.symm, h.tabWidth.symm⟩

theorem mono (h : AgreeAbove d e line) (hm : 1 ≤ m) (hle : m ≤ line) : AgreeAbove d e m where
  one_le := hm
  le_left := Nat.le_trans hle h.le_left
  le_right := Nat.le_trans hle h.le_right
  rows := by
    have hmin : min (m - 1) (line - 1) = m - 1 := by omega
    rw [← hmin, ← List.take_take, h.rows, List.take_take]
  tabWidth := h.tabWidth

/-- The rows of both documents around the line. -/
theorem exists_rows (h : AgreeAbove d e line) :
    ∃ above row row' below below', d.text.rows = above ++ row :: below ∧
      e.text.rows = above ++ row' :: below' ∧ line = above.length + 1 := by
  obtain ⟨above, row, below, hd, hl⟩ := Buffer.exists_rows h.one_le h.le_left
  obtain ⟨above', row', below', he, hl'⟩ := Buffer.exists_rows h.one_le h.le_right
  have hsame : above = above' := by
    have hrows := h.rows
    rw [show d.text.rows = _ from hd, show e.text.rows = _ from he] at hrows
    rwa [List.take_left' (by omega), List.take_left' (by omega)] at hrows
  exact ⟨above, row, row', below, below', hd, hsame ▸ he, hl⟩

/-- The rows of both documents around an earlier line. -/
theorem exists_row (h : AgreeAbove d e line) (hm : 1 ≤ m) (hlt : m < line) :
    ∃ above row below below', d.text.rows = above ++ row :: below ∧
      e.text.rows = above ++ row :: below' ∧ m = above.length + 1 := by
  obtain ⟨above, r, r', below, below', hd, he, hl⟩ := (h.mono (m := m + 1) (by omega) hlt).exists_rows
  obtain ⟨init, row, rfl⟩ : ∃ init row, above = init ++ [row] := by
    rcases List.eq_nil_or_concat above with rfl | ⟨init, row, rfl⟩
    · simp at hl
      omega
    · exact ⟨init, row, List.concat_eq_append⟩
  refine ⟨init, row, r :: below, r' :: below', by simpa using hd, by simpa using he, ?_⟩
  simpa using hl

theorem hasLine_left (h : AgreeAbove d e line) (hm : 1 ≤ m) (hle : m ≤ line) :
    d.buffer.hasLine m = true :=
  Buffer.hasLine_iff.2 ⟨hm, Nat.le_trans hle h.le_left⟩

theorem clampLine_left (h : AgreeAbove d e line) (hm : 1 ≤ m) (hle : m ≤ line) :
    d.buffer.clampLine m = m :=
  Buffer.clampLine_of_hasLine hm (Nat.le_trans hle h.le_left)

/-! ### Lines and offsets -/

theorem line_eq (h : AgreeAbove d e line) (hm : 1 ≤ m) (hlt : m < line) :
    d.buffer.line m = e.buffer.line m := by
  obtain ⟨above, row, below, below', hd, he, rfl⟩ := h.exists_row hm hlt
  rw [Buffer.line_of_rows hd, Buffer.line_of_rows he]

theorem lineText_eq (h : AgreeAbove d e line) (hm : 1 ≤ m) (hlt : m < line) :
    d.buffer.lineText m = e.buffer.lineText m := by
  rw [Buffer.lineText, Buffer.lineText, h.line_eq hm hlt]

theorem indentation_eq (h : AgreeAbove d e line) (hm : 1 ≤ m) (hlt : m < line) :
    d.buffer.indentation m = e.buffer.indentation m := by
  rw [Buffer.indentation, Buffer.indentation, h.line_eq hm hlt, h.tabWidth]

theorem indentationEnd_eq (h : AgreeAbove d e line) (hm : 1 ≤ m) (hlt : m < line) :
    d.buffer.indentationEnd m = e.buffer.indentationEnd m := by
  rw [Buffer.indentationEnd, Buffer.indentationEnd, h.line_eq hm hlt]

theorem lineStart_eq (h : AgreeAbove d e line) :
    d.buffer.lineStart line = e.buffer.lineStart line := by
  obtain ⟨above, row, row', below, below', hd, he, rfl⟩ := h.exists_rows
  rw [Buffer.lineStart_of_rows hd, Buffer.lineStart_of_rows he]

/-- The texts begin with the same whole lines. -/
theorem exists_text (h : AgreeAbove d e line) :
    ∃ p x y, d.text = p ++ x ∧ e.text = p ++ y ∧ Text.EndsLine p ∧
      d.buffer.lineStart line = size p := by
  obtain ⟨above, row, row', below, below', hd, he, rfl⟩ := h.exists_rows
  exact ⟨above.flatten, _, _, Text.eq_flatten_of_rows hd, Text.eq_flatten_of_rows he,
    Text.endsLine_flatten (Text.isFullRow_of_rows hd), Buffer.lineStart_of_rows hd⟩

/-- An offset above the line lies on the same earlier line of both documents. -/
theorem lineOfOffset_eq (h : AgreeAbove d e line) {offset : Nat}
    (ho : offset < d.buffer.lineStart line) :
    d.buffer.lineOfOffset offset = e.buffer.lineOfOffset offset ∧
      1 ≤ d.buffer.lineOfOffset offset ∧ d.buffer.lineOfOffset offset < line := by
  obtain ⟨above, r, r', below, below', hd, he, rfl⟩ := h.exists_rows
  rw [Buffer.lineStart_of_rows hd] at ho
  have hne : above ≠ [] := by
    rintro rfl
    exact absurd ho (Nat.not_lt_zero _)
  obtain ⟨upper, row, lower, rfl, hlo, hhi⟩ := Text.exists_rows_of_offset above hne offset
  have hhi' : offset < size upper.flatten + size row := by
    rcases hhi with rfl | hhi
    · simpa using ho
    · exact hhi
  have hd' : d.text.rows = upper ++ row :: (lower ++ r :: below) := by simpa using hd
  have he' : e.text.rows = upper ++ row :: (lower ++ r' :: below') := by simpa using he
  rw [Buffer.lineOfOffset_of_rows hd' hlo (.inr hhi'),
    Buffer.lineOfOffset_of_rows he' hlo (.inr hhi')]
  refine ⟨rfl, by omega, ?_⟩
  simp only [List.length_append, List.length_cons]
  omega

theorem indentationAt_eq (h : AgreeAbove d e line) {offset : Nat}
    (ho : offset < d.buffer.lineStart line) :
    d.buffer.indentationAt offset = e.buffer.indentationAt offset := by
  obtain ⟨heq, hlo, hhi⟩ := h.lineOfOffset_eq ho
  rw [Buffer.indentationAt, Buffer.indentationAt, ← heq, h.indentation_eq hlo hhi]

theorem column_eq (h : AgreeAbove d e line) {offset : Nat}
    (ho : offset < d.buffer.lineStart line) :
    d.buffer.column offset = e.buffer.column offset := by
  obtain ⟨heq, hlo, hhi⟩ := h.lineOfOffset_eq ho
  rw [Buffer.column, Buffer.column, ← heq, h.line_eq hlo hhi, h.tabWidth]

theorem lineEnd_lt (h : AgreeAbove d e line) (hm : 1 ≤ m) (hlt : m < line) :
    d.buffer.lineEnd m < d.buffer.lineStart line :=
  (Buffer.lineEnd_lt_lineStart hm hlt h.le_left).1

/-! ### Lexical states -/

theorem stateAt_eq (h : AgreeAbove d e line) {offset : Nat}
    (ho : offset ≤ d.buffer.lineStart line) : d.stateAt offset = e.stateAt offset := by
  obtain ⟨p, x, y, hd, he, hp, hstart⟩ := h.exists_text
  rw [Document.stateAt_eq, Document.stateAt_eq, classify, classify, hd, he,
    Scanner.ofOffset_congr hp (hstart ▸ ho) x y]

theorem lineStartState_eq (h : AgreeAbove d e line) :
    d.lineStartState line = e.lineStartState line := by
  rw [Document.lineStartState_eq, Document.lineStartState_eq, ← Document.stateAt_eq,
    ← Document.stateAt_eq, ← h.lineStart_eq, h.stateAt_eq (Nat.le_refl _)]

theorem lineStartState_eq_of_le (h : AgreeAbove d e line) (hm : 1 ≤ m) (hle : m ≤ line) :
    d.lineStartState m = e.lineStartState m :=
  (h.mono hm hle).lineStartState_eq

theorem codeCharsOfLines_eq (h : AgreeAbove d e line) (hm : 1 ≤ m) (hlt : m < line) {stop : Nat}
    (hstop : stop ≤ d.buffer.lineStart line) :
    d.codeCharsOfLines m stop = e.codeCharsOfLines m stop := by
  obtain ⟨p, x, y, hd, he, hp, hstart⟩ := h.exists_text
  have hle : d.buffer.lineStart m ≤ size p := by
    have hend := h.lineEnd_lt hm hlt
    rw [Buffer.lineEnd, Line.stop] at hend
    rw [Buffer.lineStart]
    omega
  rw [Document.codeCharsOfLines_eq, Document.codeCharsOfLines_eq,
    ← (h.mono hm (Nat.le_of_lt hlt)).lineStart_eq, hd, he,
    codeChars_congr hp hle (hstart ▸ hstop) x y]

end AgreeAbove

end Offside
