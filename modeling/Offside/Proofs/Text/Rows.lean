import Offside.Buffer
import Offside.Proofs.Text.Boundary

/-!
# Rows and lines

Every row of a text but the last ends with its only line feed, and the last has none; a text cut in
this way is cut into its rows.  The lines of a buffer and the look-ups by line and by offset are
described by the rows above a line, its own row and the rows below it.

* `rows_flatten_append`, `rows_replace`: the rows of a text put together from rows;
* `lineStarts`, `map_start_linesOfRows`: the offsets at which lines start;
* `Buffer.line_of_rows`, `Buffer.lineOfOffset_of_rows`: look-ups in a text with given rows;
* `Buffer.exists_rows`: the rows around an existing line.
-/

namespace Offside

namespace Text

/-! ### Rows -/

/-- A row that ends with its only line feed. -/
def IsFullRow (r : Text) : Prop := ∃ b, '\n' ∉ b ∧ r = b ++ ['\n']

theorem IsFullRow.size_pos {r : Text} (h : IsFullRow r) : 0 < size r := by
  obtain ⟨b, -, rfl⟩ := h
  have : size ['\n'] = 1 := rfl
  rw [size_append]
  omega

theorem rows_cons_of_ne {c : Char} (hc : c ≠ '\n') {t r : Text} {rs : List Text}
    (h : rows t = r :: rs) : rows (c :: t) = (c :: r) :: rs := by
  simp [rows, hc, h]

theorem rows_append_of_isFullRow {r : Text} (h : IsFullRow r) (x : Text) :
    rows (r ++ x) = r :: rows x := by
  obtain ⟨b, hb, rfl⟩ := h
  induction b with
  | nil => simp [rows]
  | cons c cs ih =>
    have hc : c ≠ '\n' := fun e => hb (e ▸ List.mem_cons_self)
    exact rows_cons_of_ne hc (ih fun hm => hb (List.mem_cons_of_mem c hm))

theorem rows_of_not_mem {r : Text} (h : '\n' ∉ r) : rows r = [r] := by
  induction r with
  | nil => rfl
  | cons c cs ih =>
    have hc : c ≠ '\n' := fun e => h (e ▸ List.mem_cons_self)
    exact rows_cons_of_ne hc (ih fun hm => h (List.mem_cons_of_mem c hm))

theorem rows_flatten_append {rs : List Text} (h : ∀ r ∈ rs, IsFullRow r) (x : Text) :
    rows (rs.flatten ++ x) = rs ++ rows x := by
  induction rs with
  | nil => rfl
  | cons r rs ih =>
    rw [List.flatten_cons, List.append_assoc,
      rows_append_of_isFullRow (h r List.mem_cons_self),
      ih fun q hq => h q (List.mem_cons_of_mem r hq), List.cons_append]

/-- Every row but the last ends with its only line feed, and the last has none. -/
theorem exists_rows_eq (t : Text) :
    ∃ rs r, rows t = rs ++ [r] ∧ (∀ q ∈ rs, IsFullRow q) ∧ '\n' ∉ r := by
  induction t with
  | nil => exact ⟨[], [], rfl, by simp, by simp⟩
  | cons c cs ih =>
    obtain ⟨rs, r, h, hrs, hr⟩ := ih
    by_cases hc : c = '\n'
    · subst hc
      refine ⟨['\n'] :: rs, r, by simp [rows, h], ?_, hr⟩
      intro q hq
      rcases List.mem_cons.1 hq with rfl | hq
      · exact ⟨[], by simp, rfl⟩
      · exact hrs q hq
    · cases rs with
      | nil =>
        refine ⟨[], c :: r, rows_cons_of_ne hc h, by simp, ?_⟩
        simpa [hr] using fun e => hc e.symm
      | cons q rs =>
        refine ⟨(c :: q) :: rs, r, rows_cons_of_ne hc h, ?_, hr⟩
        intro p hp
        rcases List.mem_cons.1 hp with rfl | hp
        · obtain ⟨b, hb, rfl⟩ := hrs q List.mem_cons_self
          refine ⟨c :: b, ?_, rfl⟩
          simpa [hb] using fun e => hc e.symm
        · exact hrs p (List.mem_cons_of_mem q hp)

/-- Whether a text is empty or ends with a line feed. -/
def EndsLine (t : Text) : Prop := t = [] ∨ ∃ q, t = q ++ ['\n']

theorem endsLine_flatten {rs : List Text} (h : ∀ r ∈ rs, IsFullRow r) : EndsLine rs.flatten := by
  rcases List.eq_nil_or_concat rs with rfl | ⟨qs, r, rfl⟩
  · exact .inl rfl
  · obtain ⟨b, -, rfl⟩ := h r (by simp)
    exact .inr ⟨qs.flatten ++ b, by simp⟩

theorem EndsLine.of_append {p q : Text} (h : EndsLine (p ++ q)) : EndsLine q := by
  rcases List.eq_nil_or_concat q with rfl | ⟨r, c, rfl⟩
  · exact .inl rfl
  · rcases h with h | ⟨u, hu⟩
    · simp at h
    · rw [List.concat_eq_append, ← List.append_assoc] at hu
      obtain ⟨-, hc⟩ := List.append_inj' hu rfl
      exact .inr ⟨r, by rw [List.concat_eq_append, hc]⟩

section Cut

variable {t row : Text} {above below : List Text}

theorem eq_flatten_of_rows (h : t.rows = above ++ row :: below) :
    t = above.flatten ++ (row ++ below.flatten) := by
  rw [← flatten_rows t, h]
  simp

/-- Rows with another one below them are full. -/
theorem isFullRow_of_rows (h : t.rows = above ++ row :: below) : ∀ r ∈ above, IsFullRow r := by
  obtain ⟨rs, q, hq, hrs, -⟩ := exists_rows_eq t
  intro r hr
  have hp : above <+: rs ++ [q] := ⟨row :: below, by rw [← hq, h]⟩
  have hlen : above.length ≤ rs.length := by
    have := congrArg List.length (h.symm.trans hq)
    simp at this
    omega
  exact hrs r ((List.prefix_of_prefix_length_le hp (List.prefix_append rs [q]) hlen).subset hr)

/-- A row is full if another one follows, and has no line feed if none does. -/
theorem row_cases_of_rows (h : t.rows = above ++ row :: below) :
    below ≠ [] ∧ IsFullRow row ∨ below = [] ∧ '\n' ∉ row := by
  cases below with
  | cons r rs =>
    have h' : t.rows = (above ++ [row]) ++ r :: rs := by simp [h]
    exact .inl ⟨by simp, isFullRow_of_rows h' row (by simp)⟩
  | nil =>
    obtain ⟨rs, q, hq, -, hn⟩ := exists_rows_eq t
    obtain ⟨-, rfl⟩ := List.append_inj' (h.symm.trans hq) rfl |>.imp_right (by simpa using ·)
    exact .inr ⟨rfl, hn⟩

/-- Rows put together again, with one of them replaced by another that ends in the same way. -/
theorem rows_replace (h : t.rows = above ++ row :: below) {row' : Text}
    (hf : IsFullRow row → IsFullRow row') (hn : '\n' ∉ row → '\n' ∉ row') :
    rows (above.flatten ++ (row' ++ below.flatten)) = above ++ row' :: below := by
  rw [rows_flatten_append (isFullRow_of_rows h)]
  rcases row_cases_of_rows h with ⟨hb, hr⟩ | ⟨rfl, hr⟩
  · obtain ⟨r, rs, rfl⟩ := List.exists_cons_of_ne_nil hb
    have h' : t.rows = (above ++ [row]) ++ r :: rs := by simp [h]
    have hbelow : rows (r :: rs).flatten = r :: rs := by
      have ht := eq_flatten_of_rows h'
      have hrows := rows_flatten_append (isFullRow_of_rows h') (r ++ rs.flatten)
      rw [← ht, h'] at hrows
      simpa using hrows.symm
    rw [rows_append_of_isFullRow (hf hr), hbelow]
  · rw [List.flatten_nil, List.append_nil, rows_of_not_mem (hn hr)]

end Cut

/-! ### Lines -/

theorem linesOfRows_append (start : Nat) (rs ss : List Text) :
    linesOfRows start (rs ++ ss) =
      linesOfRows start rs ++ linesOfRows (start + size rs.flatten) ss := by
  induction rs generalizing start with
  | nil => rfl
  | cons r rs ih => simp [linesOfRows, ih, Nat.add_assoc]

@[simp] theorem length_linesOfRows (start : Nat) (rs : List Text) :
    (linesOfRows start rs).length = rs.length := by
  induction rs generalizing start with
  | nil => rfl
  | cons r rs ih => simp [linesOfRows, ih]

/-- Lines start between the bounds of their rows. -/
theorem start_of_mem_linesOfRows {start : Nat} {rs : List Text} {l : Line}
    (h : l ∈ linesOfRows start rs) : start ≤ l.start ∧ l.start ≤ start + size rs.flatten := by
  induction rs generalizing start with
  | nil => cases h
  | cons r rs ih =>
    rw [linesOfRows] at h
    rcases List.mem_cons.1 h with rfl | h
    · simp
    · have := ih h
      simp only [List.flatten_cons, size_append]
      omega

/-- The offsets at which lines start: zero, and the one after each line feed. -/
def lineStarts (t : Text) : List Nat :=
  0 :: (offsets 0 t).filterMap fun p => if p.2 = '\n' then some (p.1 + 1) else none

theorem map_start_linesOfRows (start : Nat) (t : Text) :
    (linesOfRows start t.rows).map Line.start = start ::
      (offsets start t).filterMap fun p => if p.2 = '\n' then some (p.1 + 1) else none := by
  induction t generalizing start with
  | nil => simp [rows, linesOfRows, offsets]
  | cons c cs ih =>
    have hcs := ih (start + c.utf8Size)
    by_cases hc : c = '\n'
    · subst hc
      have hone : Char.utf8Size '\n' = 1 := rfl
      simpa [rows, linesOfRows, offsets, hone] using hcs
    · obtain ⟨r, rs, hr⟩ := List.exists_cons_of_ne_nil (rows_ne_nil cs)
      rw [hr, linesOfRows, List.map_cons, Line.ofRow_start, Nat.add_assoc] at hcs
      rw [rows_cons_of_ne hc hr, linesOfRows, List.map_cons, Line.ofRow_start, size_cons,
        (List.cons_eq_cons.1 hcs).2]
      simp [offsets, hc]

end Text

/-- The body of a line with a terminator ends before the next line starts. -/
theorem Line.stop_lt_next {r : Text} (h : Text.IsFullRow r) (start : Nat) :
    (ofRow start r).stop < (ofRow start r).next := by
  obtain ⟨b, -, rfl⟩ := h
  have hsize : 0 < Text.size (ofRow start (b ++ ['\n'])).ending.text := by
    unfold ofRow
    split
    · show 0 < 2
      omega
    · show 0 < 1
      omega
    · next hne => exact absurd (by simp) (hne b.reverse)
  rw [stop, next, row, Text.size_append]
  omega

/-- A row without a line feed is all body. -/
theorem Line.ofRow_of_not_mem (start : Nat) {row : Text} (h : '\n' ∉ row) :
    ofRow start row = ⟨start, row, .none⟩ := by
  rw [← List.mem_reverse] at h
  unfold ofRow
  split
  · next body hrev => exact absurd (by simp [hrev]) h
  · next body _ hrev => exact absurd (by simp [hrev]) h
  · rfl

/-- A row with a line feed is its body followed by the terminator; a body before a line feed alone
does not end in a carriage return. -/
theorem Line.ofRow_cases (start : Nat) {row : Text} (h : Text.IsFullRow row) :
    (∃ body, row = body ++ ['\r', '\n'] ∧ ofRow start row = ⟨start, body, .crlf⟩) ∨
    (∃ body, row = body ++ ['\n'] ∧ ofRow start row = ⟨start, body, .lf⟩ ∧
      ∀ u, body ≠ u ++ ['\r']) := by
  obtain ⟨b, -, rfl⟩ := h
  rcases List.eq_nil_or_concat b with rfl | ⟨u, c, rfl⟩
  · exact .inr ⟨[], rfl, rfl, fun u hu => by simp at hu⟩
  · by_cases hc : c = '\r'
    · subst hc
      exact .inl ⟨u, by simp, by simp [ofRow]⟩
    · refine .inr ⟨u ++ [c], by simp, ?_, fun v hv => hc ?_⟩
      · unfold ofRow
        split
        · next body hrev => simp_all
        · next body _ hrev => simp_all
        · next hne => simp at hne
      · simpa using (List.append_inj' hv rfl).2

/-- The body of a line has no line feed. -/
theorem Line.not_mem_newline_body {r : Text} (h : Text.IsFullRow r ∨ '\n' ∉ r) (start : Nat) :
    '\n' ∉ (ofRow start r).body := by
  have hrow := ofRow_row start r
  rw [row] at hrow
  rcases h with h | h
  · have hlt := Line.stop_lt_next h start
    obtain ⟨b, hb, rfl⟩ := h
    rcases List.eq_nil_or_concat (ofRow start (b ++ ['\n'])).ending.text with hnil | ⟨e, c, he⟩
    · rw [stop, next, row, hnil, List.append_nil] at hlt
      omega
    · rw [he, List.concat_eq_append, ← List.append_assoc] at hrow
      obtain ⟨hbody, -⟩ := List.append_inj' hrow rfl
      exact fun hm => hb (hbody ▸ List.mem_append_left e hm)
  · exact fun hm => h (hrow ▸ List.mem_append_left _ hm)

namespace Buffer

variable {b : Buffer} {row : Text} {above below : List Text}

theorem lineCount_eq (b : Buffer) : b.lineCount = b.text.rows.length := by
  simp [lineCount, b.lines_eq, Text.lines]

/-- The line table says where lines start. -/
theorem map_start_lines (b : Buffer) : b.lines.toList.map Line.start = b.text.lineStarts := by
  rw [b.lines_eq]
  exact Text.map_start_linesOfRows 0 b.text

theorem hasLine_iff {line : Nat} : b.hasLine line = true ↔ 1 ≤ line ∧ line ≤ b.lineCount := by
  simp [hasLine]

theorem clampLine_of_hasLine {line : Nat} (h : 1 ≤ line) (h' : line ≤ b.lineCount) :
    b.clampLine line = line := by
  unfold clampLine
  omega

/-- The rows around an existing line. -/
theorem exists_rows {line : Nat} (h : 1 ≤ line) (h' : line ≤ b.lineCount) :
    ∃ above row below, b.text.rows = above ++ row :: below ∧ line = above.length + 1 := by
  rw [lineCount_eq] at h'
  refine ⟨b.text.rows.take (line - 1), b.text.rows[line - 1], b.text.rows.drop line, ?_, ?_⟩
  · have := List.drop_eq_getElem_cons (l := b.text.rows) (i := line - 1) (by omega)
    rw [show line - 1 + 1 = line by omega] at this
    rw [← this, List.take_append_drop]
  · rw [List.length_take]
    omega

theorem length_le_lineCount (h : b.text.rows = above ++ row :: below) :
    above.length + 1 ≤ b.lineCount := by
  rw [lineCount_eq, h]
  simp

/-- The line with given rows above it. -/
theorem line_of_rows (h : b.text.rows = above ++ row :: below) :
    b.line (above.length + 1) = Line.ofRow (Text.size above.flatten) row := by
  have hlen := length_le_lineCount h
  have hl : b.lines.toList = Text.linesOfRows 0 above ++
      Text.linesOfRows (0 + Text.size above.flatten) (row :: below) := by
    rw [b.lines_eq, Text.lines, h, Text.linesOfRows_append]
  rw [line, clampLine_of_hasLine (by omega) hlen, Nat.add_sub_cancel, Array.getD_eq_getD_getElem?,
    ← Array.getElem?_toList, hl]
  simp [Text.linesOfRows]

/-- The entry of a line in the line table. -/
theorem getElem?_lines (h : b.text.rows = above ++ row :: below) :
    b.lines[above.length]? = some (Line.ofRow (Text.size above.flatten) row) := by
  rw [b.lines_eq, List.getElem?_toArray, Text.lines, h, Text.linesOfRows_append]
  simp [Text.linesOfRows]

/-- Nothing comes after the last line in the line table. -/
theorem getElem?_lines_eq_none (h : b.text.rows = above ++ [row]) :
    b.lines[above.length + 1]? = none := by
  rw [b.lines_eq, List.getElem?_toArray, Text.lines, h]
  simp

theorem lineStart_of_rows (h : b.text.rows = above ++ row :: below) :
    b.lineStart (above.length + 1) = Text.size above.flatten := by
  rw [lineStart, line_of_rows h, Line.ofRow_start]

theorem nextLineStart_of_rows (h : b.text.rows = above ++ row :: below) :
    b.nextLineStart (above.length + 1) = Text.size above.flatten + Text.size row := by
  rw [nextLineStart, line_of_rows h, Line.next, Line.ofRow_start, Line.ofRow_row]

/-- The line of an offset that lies in a given row. -/
theorem lineOfOffset_of_rows (h : b.text.rows = above ++ row :: below) {offset : Nat}
    (hlo : Text.size above.flatten ≤ offset)
    (hhi : below = [] ∨ offset < Text.size above.flatten + Text.size row) :
    b.lineOfOffset offset = above.length + 1 := by
  have hl : b.lines.toList = Text.linesOfRows 0 above ++
      (Line.ofRow (Text.size above.flatten) row ::
        Text.linesOfRows (Text.size above.flatten + Text.size row) below) := by
    rw [b.lines_eq, Text.lines, h, Text.linesOfRows_append, Text.linesOfRows, Nat.zero_add]
  have habove : (Text.linesOfRows 0 above).countP (·.start ≤ offset) = above.length := by
    rw [← Text.length_linesOfRows 0 above, List.countP_eq_length]
    intro l hl
    have := (Text.start_of_mem_linesOfRows hl).2
    simp only [decide_eq_true_eq]
    omega
  have hbelow : (Text.linesOfRows (Text.size above.flatten + Text.size row) below).countP
      (·.start ≤ offset) = 0 := by
    rw [List.countP_eq_zero]
    intro l hl
    have := (Text.start_of_mem_linesOfRows hl).1
    rcases hhi with rfl | hhi
    · cases hl
    · simp only [decide_eq_true_eq]
      omega
  rw [lineOfOffset, ← Array.countP_toList, hl, List.countP_append, List.countP_cons, habove, hbelow]
  simp [hlo]

/-- The rows around two existing lines. -/
theorem exists_rows_of_lt {m n : Nat} (hm : 1 ≤ m) (hmn : m < n) (hn : n ≤ b.lineCount) :
    ∃ above row between row' below, b.text.rows = above ++ row :: (between ++ row' :: below) ∧
      m = above.length + 1 ∧ n = (above ++ row :: between).length + 1 := by
  obtain ⟨upper, row', below, h, rfl⟩ := exists_rows (b := b) (show 1 ≤ n by omega) hn
  have hlt : m - 1 < upper.length := by omega
  refine ⟨upper.take (m - 1), upper[m - 1], upper.drop m, row', below, ?_, ?_, ?_⟩
  · have hdrop := List.drop_eq_getElem_cons hlt
    rw [show m - 1 + 1 = m by omega] at hdrop
    rw [h, ← List.cons_append, ← List.append_assoc, ← hdrop, List.take_append_drop]
  · rw [List.length_take]
    omega
  · simp only [List.length_append, List.length_take, List.length_cons, List.length_drop]
    omega

/-- A line ends before every later one starts. -/
theorem lineEnd_lt_lineStart {m n : Nat} (hm : 1 ≤ m) (hmn : m < n) (hn : n ≤ b.lineCount) :
    b.lineEnd m < b.lineStart n ∧ b.nextLineStart m ≤ b.lineStart n := by
  obtain ⟨above, row, between, row', below, h, rfl, rfl⟩ := exists_rows_of_lt hm hmn hn
  have h' : b.text.rows = (above ++ row :: between) ++ row' :: below := by simpa using h
  have hlt := Line.stop_lt_next (Text.isFullRow_of_rows h' row (by simp))
    (Text.size above.flatten)
  rw [← line_of_rows h] at hlt
  have hnext := nextLineStart_of_rows h
  have hstart := lineStart_of_rows h'
  simp only [List.flatten_append, List.flatten_cons, Text.size_append] at hstart
  simp only [lineEnd, nextLineStart] at *
  omega

/-! ### The nearest existing line -/

theorem lineCount_pos (b : Buffer) : 1 ≤ b.lineCount := by
  rw [lineCount_eq]
  exact List.length_pos_iff.2 (Text.rows_ne_nil b.text)

theorem clampLine_mem (b : Buffer) (line : Nat) :
    1 ≤ b.clampLine line ∧ b.clampLine line ≤ b.lineCount := by
  have := b.lineCount_pos
  unfold clampLine
  omega

theorem clampLine_clampLine (b : Buffer) (line : Nat) :
    b.clampLine (b.clampLine line) = b.clampLine line :=
  clampLine_of_hasLine (b.clampLine_mem line).1 (b.clampLine_mem line).2

theorem clampLine_congr {b b' : Buffer} (h : b.lineCount = b'.lineCount) (line : Nat) :
    b.clampLine line = b'.clampLine line := by
  rw [clampLine, clampLine, h]

theorem hasLine_congr {b b' : Buffer} (h : b.lineCount = b'.lineCount) (line : Nat) :
    b.hasLine line = b'.hasLine line := by
  rw [hasLine, hasLine, h]

theorem lineStart_clampLine (b : Buffer) (line : Nat) :
    b.lineStart line = b.lineStart (b.clampLine line) := by
  rw [lineStart, lineStart, Buffer.line, Buffer.line, clampLine_clampLine]

theorem line_clampLine (b : Buffer) (line : Nat) : b.line (b.clampLine line) = b.line line := by
  rw [Buffer.line, Buffer.line, clampLine_clampLine]

/-- The rows around the existing line nearest to a number. -/
theorem exists_rows_clampLine (b : Buffer) (line : Nat) :
    ∃ above row below, b.text.rows = above ++ row :: below ∧
      b.clampLine line = above.length + 1 :=
  exists_rows (b.clampLine_mem line).1 (b.clampLine_mem line).2

/-- Every line starts at a boundary. -/
theorem isBoundary_lineStart (b : Buffer) (line : Nat) :
    Text.IsBoundary b.text (b.lineStart line) := by
  obtain ⟨above, row, below, h, hline⟩ := b.exists_rows_clampLine line
  rw [lineStart_clampLine, hline, lineStart_of_rows h, Text.eq_flatten_of_rows h]
  exact Text.isBoundary_size _ _

end Buffer

end Offside
