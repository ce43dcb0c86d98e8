import Offside.Proofs.Guarded.Access
import Offside.Proofs.Partition

/-!
# Guarded look-ups in a buffer

The look-ups of a buffer by line and by offset, evaluated with guards: they read the line table by
its index, go back from the start of the next line to find the end of a line, and slice the text.
None of them faults, and they find what the line table says.

* `Buffer.text_around_body`, `Buffer.floorBoundary_of_rows`: the text around a line and an offset;
* `Guarded.lineStart`, `lineEnd`, `nextLineStart`, `lineText`: look-ups by line;
* `Guarded.indentationEnd`, `indentation`, `lineAt`, `column`: indentation and columns;
* `Buffer.isBoundary_of_lineText`: the places of a line are boundaries of the text.
-/

namespace Offside

open Text (IsBoundary)

/-! ### The text around a line -/

namespace Buffer

variable {b : Buffer} {row : Text} {above below : List Text}

/-- The text before, on and after the body of a line. -/
theorem text_around_body (h : b.text.rows = above ++ row :: below) :
    b.text = above.flatten ++ ((Line.ofRow (Text.size above.flatten) row).body ++
      ((Line.ofRow (Text.size above.flatten) row).ending.text ++ below.flatten)) := by
  have hrow := Line.ofRow_row (Text.size above.flatten) row
  rw [Line.row] at hrow
  rw [Text.eq_flatten_of_rows h, ← List.append_assoc (Line.body _), hrow]

/-- The text before, on and after the body of a line that is looked up by its number. -/
theorem exists_text_around_body (b : Buffer) (line : Nat) :
    ∃ p x, b.text = p ++ (b.lineText line ++ x) ∧ b.lineStart line = Text.size p ∧
      b.lineEnd line = Text.size p + Text.size (b.lineText line) := by
  obtain ⟨above, row, below, h, hline⟩ := b.exists_rows_clampLine line
  rw [lineText, lineStart, lineEnd, ← b.line_clampLine line, hline, line_of_rows h, Line.stop,
    Line.ofRow_start]
  exact ⟨_, _, text_around_body h, rfl, rfl⟩

/-- Rounding an offset down stops after what stands before it on its line. -/
theorem floorBoundary_of_rows (h : b.text.rows = above ++ row :: below) {k : Nat}
    (hk : below = [] ∨ k < Text.size row) :
    b.text.floorBoundary (Text.size above.flatten + k) =
      Text.size above.flatten + Text.size (row.takeBytes k) := by
  have htake : (row ++ below.flatten).takeBytes k = row.takeBytes k := by
    rcases hk with rfl | hk
    · simp
    · exact Text.takeBytes_append_of_le (Nat.le_of_lt hk) _
  rw [Text.floorBoundary, Text.eq_flatten_of_rows h, Text.takeBytes_size_add, htake,
    Text.size_append]

/-- Rounding an offset down does not leave its line. -/
theorem lineOfOffset_floorBoundary (b : Buffer) (offset : Nat) :
    b.lineOfOffset (b.text.floorBoundary offset) = b.lineOfOffset offset := by
  obtain ⟨above, row, below, h, hlo, hhi⟩ :=
    Text.exists_rows_of_offset b.text.rows (Text.rows_ne_nil b.text) offset
  obtain ⟨k, rfl⟩ := Nat.exists_eq_add_of_le hlo
  have hle := Text.floorBoundary_le b.text (Text.size above.flatten + k)
  rw [lineOfOffset_of_rows h hlo hhi]
  refine lineOfOffset_of_rows h ?_ (hhi.imp_right fun hlt => by omega)
  rw [floorBoundary_of_rows h (hhi.imp_right fun hlt => by omega)]
  exact Nat.le_add_right _ _

/-! ### Boundaries -/

/-- Wherever a line is cut, there is a boundary of the text. -/
theorem isBoundary_of_lineText {line : Nat} {u r : Text} (h : b.lineText line = u ++ r) :
    IsBoundary b.text (b.lineStart line + Text.size u) := by
  obtain ⟨p, x, htext, hstart, -⟩ := b.exists_text_around_body line
  rw [htext, hstart, h, List.append_assoc, ← List.append_assoc p, ← Text.size_append]
  exact Text.isBoundary_size _ _

theorem isBoundary_lineEnd (b : Buffer) (line : Nat) : IsBoundary b.text (b.lineEnd line) :=
  isBoundary_of_lineText (List.append_nil _).symm

theorem isBoundary_indentationEnd (b : Buffer) (line : Nat) :
    IsBoundary b.text (b.indentationEnd line) :=
  isBoundary_of_lineText (b.lineText line).indentation_append_afterIndentation.symm

theorem isBoundary_nextLineStart (b : Buffer) (line : Nat) :
    IsBoundary b.text (b.nextLineStart line) := by
  obtain ⟨above, row, below, h, hline⟩ := b.exists_rows_clampLine line
  rw [nextLineStart, ← b.line_clampLine, hline, ← nextLineStart, nextLineStart_of_rows h,
    Text.eq_flatten_of_rows h, ← List.append_assoc, ← Text.size_append]
  exact Text.isBoundary_size _ _

end Buffer

namespace Guarded

/-! ### Look-ups by line -/

/-- The position of a line in the line table. -/
def index (b : Buffer) (line : Nat) : Guarded Nat := do
  return min (← minus (max line 1) 1) (← minus b.lineCount 1)

/-- The offset of the first character of a line. -/
def lineStart (b : Buffer) (line : Nat) : Guarded Nat := do
  return (← item b.lines (← index b line)).start

/-- The end of the body of a line that starts at `start` and has its line feed at `newline`: a
carriage return before the line feed does not count. -/
def bodyEnd (t : Text) (start newline : Nat) : Guarded Nat := do
  if start < newline then
    let last ← minus newline 1
    return if ← byteIs t last '\r' then last else newline
  else return newline

/-- The offset just past the body of a line, found by going back from the start of the next one. -/
def lineEnd (b : Buffer) (line : Nat) : Guarded Nat := do
  let position ← index b line
  match b.lines[position + 1]? with
  | none => return b.size
  | some next => bodyEnd b.text (← item b.lines position).start (← minus next.start 1)

/-- The offset at which the next line starts. -/
def nextLineStart (b : Buffer) (line : Nat) : Guarded Nat := do
  return match b.lines[(← index b line) + 1]? with
    | none => b.size
    | some next => next.start

/-- The text of a line without its terminator. -/
def lineText (b : Buffer) (line : Nat) : Guarded Text := do
  slice b.text (← lineStart b line) (← lineEnd b line)

@[simp] theorem index_eq (b : Buffer) (line : Nat) :
    index b line = pure (b.clampLine line - 1) := by
  have hcount := b.lineCount_pos
  have hclamp : min (max line 1 - 1) (b.lineCount - 1) = b.clampLine line - 1 := by
    unfold Buffer.clampLine
    omega
  rw [index, minus_of_le (Nat.le_max_right line 1), minus_of_le hcount, pure_bind, pure_bind, hclamp]

@[simp] theorem lineStart_eq (b : Buffer) (line : Nat) :
    lineStart b line = pure (b.lineStart line) := by
  obtain ⟨above, row, below, h, hline⟩ := b.exists_rows_clampLine line
  rw [Buffer.lineStart_clampLine, hline, Buffer.lineStart_of_rows h]
  simp [lineStart, hline, item_of_getElem? (Buffer.getElem?_lines h)]

/-- What the line table says about the line after another one. -/
theorem getElem?_next {b : Buffer} {row : Text} {above below : List Text}
    (h : b.text.rows = above ++ row :: below) :
    (b.lines[above.length + 1]? = none ∧ below = []) ∨
    (∃ next, b.lines[above.length + 1]? = some next ∧ Text.IsFullRow row ∧
      next.start = Text.size above.flatten + Text.size row) := by
  rcases Text.row_cases_of_rows h with ⟨hbelow, hfull⟩ | ⟨rfl, -⟩
  · obtain ⟨r, rs, rfl⟩ := List.exists_cons_of_ne_nil hbelow
    have h' : b.text.rows = (above ++ [row]) ++ r :: rs := by simp [h]
    have hnext := Buffer.getElem?_lines h'
    rw [List.length_append, List.length_singleton] at hnext
    exact .inr ⟨_, hnext, hfull, by simp⟩
  · exact .inl ⟨Buffer.getElem?_lines_eq_none h, rfl⟩

@[simp] theorem nextLineStart_eq (b : Buffer) (line : Nat) :
    nextLineStart b line = pure (b.nextLineStart line) := by
  obtain ⟨above, row, below, h, hline⟩ := b.exists_rows_clampLine line
  rw [Buffer.nextLineStart, ← b.line_clampLine line, hline]
  simp only [nextLineStart, index_eq, hline, Nat.add_sub_cancel, pure_bind]
  have hstart := Buffer.nextLineStart_of_rows h
  rw [Buffer.nextLineStart] at hstart
  rcases getElem?_next h with ⟨hnone, rfl⟩ | ⟨next, hnext, -, hsize⟩
  · have hsize : b.size = _ := congrArg Text.size (Text.eq_flatten_of_rows h)
    rw [hnone, hstart, hsize]
    simp
  · simp only [hnext, hstart, hsize]

theorem bodyEnd_crlf (p body x : Text) :
    bodyEnd (p ++ (body ++ '\r' :: x)) (Text.size p) (Text.size p + Text.size body + 1) =
      pure (Text.size p + Text.size body) := by
  have hbyte := byteIs_append (p ++ body) x (c := '\r') (k := '\r') rfl (j := 0) Nat.one_pos
  rw [Nat.add_zero, Text.size_append, List.append_assoc] at hbyte
  rw [bodyEnd, if_pos (by omega), minus_succ_one, pure_bind, hbyte]
  rfl

theorem bodyEnd_lf (p x : Text) {body : Text} (h : ∀ u, body ≠ u ++ ['\r']) :
    bodyEnd (p ++ (body ++ x)) (Text.size p) (Text.size p + Text.size body) =
      pure (Text.size p + Text.size body) := by
  rcases List.eq_nil_or_concat body with rfl | ⟨u, c, rfl⟩
  · rw [bodyEnd, if_neg (by simp)]
  · -- the last byte of the last character decides
    rw [List.concat_eq_append] at *
    have hc := c.utf8Size_pos
    have hne : c ≠ '\r' := fun e => h u (by rw [e])
    have hbyte := byteIs_append (p ++ u) x (k := '\r') rfl (Nat.sub_lt hc Nat.one_pos)
    have hsize : Text.size (u ++ [c]) = Text.size u + c.utf8Size := by simp
    have hlast : Text.size (p ++ u) + (c.utf8Size - 1) = Text.size p + Text.size (u ++ [c]) - 1 := by
      rw [hsize, Text.size_append]
      omega
    rw [hlast, List.append_assoc, List.append_cons u c x] at hbyte
    rw [bodyEnd, if_pos (by omega), minus_of_le (by omega), pure_bind, hbyte]
    simp [hne]

@[simp] theorem lineEnd_eq (b : Buffer) (line : Nat) :
    lineEnd b line = pure (b.lineEnd line) := by
  obtain ⟨above, row, below, h, hline⟩ := b.exists_rows_clampLine line
  have htext := Text.eq_flatten_of_rows h
  rw [Buffer.lineEnd, ← b.line_clampLine line, hline, Buffer.line_of_rows h, Line.stop]
  simp only [lineEnd, index_eq, hline, Nat.add_sub_cancel, pure_bind,
    item_of_getElem? (Buffer.getElem?_lines h), Line.ofRow_start]
  rcases getElem?_next h with ⟨hnone, rfl⟩ | ⟨next, hnext, hfull, hsize⟩
  · -- the last line ends with the text
    have hrow := (Text.row_cases_of_rows h).resolve_left (fun hne => hne.1 rfl)
    rw [hnone, Buffer.size, htext, Line.ofRow_of_not_mem _ hrow.2]
    simp
  · simp only [hnext, hsize]
    rcases Line.ofRow_cases (Text.size above.flatten) hfull with
      ⟨body, rfl, hofRow⟩ | ⟨body, rfl, hofRow, hbody⟩
    · have hnewline : Text.size above.flatten + Text.size (body ++ ['\r', '\n']) =
          Text.size above.flatten + Text.size body + 1 + 1 := by
        rw [Text.size_append, show Text.size ['\r', '\n'] = 2 from rfl]
        omega
      rw [hofRow, hnewline, minus_succ_one, pure_bind, htext, List.append_assoc]
      exact bodyEnd_crlf above.flatten body ('\n' :: below.flatten)
    · have hnewline : Text.size above.flatten + Text.size (body ++ ['\n']) =
          Text.size above.flatten + Text.size body + 1 := by
        rw [Text.size_append, show Text.size ['\n'] = 1 from rfl]
        omega
      rw [hofRow, hnewline, minus_succ_one, pure_bind, htext, List.append_assoc]
      exact bodyEnd_lf above.flatten ('\n' :: below.flatten) hbody

@[simp] theorem lineText_eq (b : Buffer) (line : Nat) :
    lineText b line = pure (b.lineText line) := by
  obtain ⟨p, x, htext, hstart, hend⟩ := b.exists_text_around_body line
  rw [lineText, lineStart_eq, lineEnd_eq, pure_bind, pure_bind, hstart, hend, htext, slice_append]

/-- The rest of a line is sliced from where the rest begins. -/
theorem slice_lineText {b : Buffer} {line : Nat} {u r : Text} (h : b.lineText line = u ++ r) :
    slice b.text (b.lineStart line + Text.size u) (b.lineEnd line) = pure r := by
  obtain ⟨p, x, htext, hstart, hend⟩ := b.exists_text_around_body line
  have hslice := slice_append (p ++ u) r x
  rw [List.append_assoc, ← List.append_assoc u, ← h, ← htext, Text.size_append] at hslice
  rwa [hend, hstart, h, Text.size_append, ← Nat.add_assoc]

/-! ### Indentation and columns -/

/-- The column reached from column `width` by one character. -/
def nextColumn (tabWidth width : Nat) (c : Char) : Guarded Nat := do
  let tabWidth := max tabWidth 1
  if c = '\t' then return ((← quotient width tabWidth) + 1) * tabWidth
  else if c = '\x0c' then return width
  else return width + 1

/-- The number of columns a text takes from column zero. -/
def displayWidth (tabWidth : Nat) (t : Text) : Guarded Nat := t.foldlM (nextColumn tabWidth) 0

/-- The number of bytes of a line's indentation. -/
def leadingSize (t : Text) : Guarded Nat := minus t.size t.afterIndentation.size

/-- The offset just past a line's indentation. -/
def indentationEnd (b : Buffer) (line : Nat) : Guarded Nat := do
  return (← lineStart b line) + (← leadingSize (← lineText b line))

/-- The width of a line's indentation in columns. -/
def indentation (b : Buffer) (line : Nat) : Guarded Nat := do
  let t ← lineText b line
  displayWidth b.tabWidth (← slice t 0 (← leadingSize t))

/-- The width of the indentation of the line that holds an offset. -/
def indentationAt (b : Buffer) (offset : Nat) : Guarded Nat := indentation b (b.lineOfOffset offset)

/-- The number of the line that holds an offset, which is rounded down first. -/
def lineAt (b : Buffer) (offset : Nat) : Guarded Nat := do
  return b.lineOfOffset (← floor b.text offset)

/-- The column of an offset within its line. -/
def column (b : Buffer) (offset : Nat) : Guarded Nat := do
  let offset ← floor b.text offset
  displayWidth b.tabWidth (← slice b.text (← lineStart b (b.lineOfOffset offset)) offset)

@[simp] theorem nextColumn_eq (tabWidth width : Nat) (c : Char) :
    nextColumn tabWidth width c = pure (Text.nextColumn tabWidth width c) := by
  have hpos : 0 < max tabWidth 1 := Nat.lt_of_lt_of_le Nat.one_pos (Nat.le_max_right _ _)
  simp only [nextColumn, Text.nextColumn, quotient_of_pos hpos, pure_bind, ite_pure]

@[simp] theorem displayWidth_eq (tabWidth : Nat) (t : Text) :
    displayWidth tabWidth t = pure (t.displayWidth tabWidth) := by
  rw [displayWidth, funext₂ (nextColumn_eq tabWidth), List.foldlM_pure, Text.displayWidth]

@[simp] theorem leadingSize_eq (t : Text) : leadingSize t = pure t.indentation.size := by
  have hsize := congrArg Text.size t.indentation_append_afterIndentation
  rw [Text.size_append] at hsize
  rw [leadingSize, minus_of_le (by omega), ← hsize, Nat.add_sub_cancel]

@[simp] theorem indentationEnd_eq (b : Buffer) (line : Nat) :
    indentationEnd b line = pure (b.indentationEnd line) := by
  simp only [indentationEnd, lineStart_eq, lineText_eq, leadingSize_eq, pure_bind]
  rfl

@[simp] theorem indentation_eq (b : Buffer) (line : Nat) :
    indentation b line = pure (b.indentation line) := by
  have hslice := slice_zero_size (b.lineText line).indentation (b.lineText line).afterIndentation
  rw [Text.indentation_append_afterIndentation] at hslice
  simp only [indentation, lineText_eq, leadingSize_eq, pure_bind, hslice, displayWidth_eq]
  rfl

@[simp] theorem indentationAt_eq (b : Buffer) (offset : Nat) :
    indentationAt b offset = pure (b.indentationAt offset) :=
  indentation_eq b (b.lineOfOffset offset)

@[simp] theorem lineAt_eq (b : Buffer) (offset : Nat) :
    lineAt b offset = pure (b.lineOfOffset offset) := by
  rw [lineAt, floor_eq, pure_bind, b.lineOfOffset_floorBoundary]

@[simp] theorem column_eq (b : Buffer) (offset : Nat) :
    column b offset = pure (b.column offset) := by
  obtain ⟨above, row, below, h, hlo, hhi⟩ :=
    Text.exists_rows_of_offset b.text.rows (Text.rows_ne_nil b.text) offset
  obtain ⟨k, rfl⟩ := Nat.exists_eq_add_of_le hlo
  have hline := Buffer.lineOfOffset_of_rows h hlo hhi
  have hfloor := Buffer.floorBoundary_of_rows h (k := k) (hhi.imp_right fun hlt => by omega)
  have hslice : slice b.text (Text.size above.flatten)
      (Text.size above.flatten + Text.size (row.takeBytes k)) = pure (row.takeBytes k) := by
    have htext := Text.eq_flatten_of_rows h
    rw [← Text.takeBytes_append_dropBytes k row, List.append_assoc] at htext
    rw [htext, slice_append]
  rw [column, floor_eq, pure_bind, b.lineOfOffset_floorBoundary, hline, lineStart_eq, pure_bind,
    Buffer.lineStart_of_rows h, hfloor, hslice, pure_bind, displayWidth_eq]
  rw [Buffer.column, hline, Buffer.line_of_rows h, Line.before, Line.ofRow_row, Line.ofRow_start,
    Nat.add_sub_cancel_left]

end Guarded

end Offside
