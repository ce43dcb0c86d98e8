import Offside.Proofs.Guarded.Buffer
import Offside.Proofs.SetIndentation

/-!
# Texts with other line endings

A text without carriage returns, and the same text with a carriage return before every line feed.
Both have the same lines, and every boundary of the first one corresponds to a boundary of the
second: its place in the body of the same line.

* `Text.withCrlf`, `Text.crlfOffset`: the other text, and offsets in it;
* `Text.rows_withCrlf`: its rows;
* `CrlfVersion`: a document of the one text and a document of the other;
* `CrlfVersion.lineText_eq`, `indentation_eq`: the same lines;
* `CrlfVersion.exists_lineText_of_isBoundary`, `lineOfOffset_eq`, `column_eq`: corresponding
  offsets.
-/

namespace Offside

namespace Text

/-! ### Line feeds -/

/-- The text with a carriage return before every line feed. -/
def withCrlf : Text → Text
  | [] => []
  | c :: cs => if c = '\n' then '\r' :: '\n' :: withCrlf cs else c :: withCrlf cs

@[simp] theorem withCrlf_nil : withCrlf [] = [] := rfl

@[simp] theorem withCrlf_newline (t : Text) :
    withCrlf ('\n' :: t) = '\r' :: '\n' :: withCrlf t := rfl

theorem withCrlf_cons_of_ne {c : Char} (hc : c ≠ '\n') (t : Text) :
    withCrlf (c :: t) = c :: withCrlf t := if_neg hc

@[simp] theorem withCrlf_append (s t : Text) : withCrlf (s ++ t) = withCrlf s ++ withCrlf t := by
  induction s with
  | nil => rfl
  | cons c cs ih =>
    by_cases hc : c = '\n'
    · subst hc
      simp [ih]
    · simp [withCrlf_cons_of_ne hc, ih]

theorem withCrlf_of_not_mem {t : Text} (h : '\n' ∉ t) : withCrlf t = t := by
  induction t with
  | nil => rfl
  | cons c cs ih =>
    rw [List.mem_cons, not_or] at h
    rw [withCrlf_cons_of_ne (Ne.symm h.1), ih h.2]

theorem withCrlf_flatten (rs : List Text) : withCrlf rs.flatten = (rs.map withCrlf).flatten := by
  induction rs with
  | nil => rfl
  | cons r rs ih => simp [ih]

/-- The offset in the text with other line endings that corresponds to an offset. -/
def crlfOffset (t : Text) (offset : Nat) : Nat := size (t.takeBytes offset).withCrlf

@[simp] theorem crlfOffset_size (p x : Text) : crlfOffset (p ++ x) (size p) = size p.withCrlf := by
  rw [crlfOffset, takeBytes_size]

/-- Within a line both texts go on in step. -/
theorem crlfOffset_size_add {u : Text} (hu : '\n' ∉ u) (p x : Text) :
    crlfOffset (p ++ (u ++ x)) (size p + size u) = size p.withCrlf + size u := by
  rw [← size_append, ← List.append_assoc, crlfOffset_size, withCrlf_append, size_append,
    withCrlf_of_not_mem hu]

/-! ### Rows -/

theorem IsFullRow.withCrlf {r : Text} (h : IsFullRow r) : IsFullRow r.withCrlf := by
  obtain ⟨b, hb, rfl⟩ := h
  refine ⟨b ++ ['\r'], ?_, ?_⟩
  · simpa using hb
  · rw [withCrlf_append, withCrlf_of_not_mem hb]
    simp

/-- The text with other line endings has the same rows with other line endings. -/
theorem rows_withCrlf (t : Text) : rows (withCrlf t) = (rows t).map withCrlf := by
  obtain ⟨rs, r, hrows, hfull, hlast⟩ := exists_rows_eq t
  have htext : withCrlf t = (rs.map withCrlf).flatten ++ withCrlf r := by
    rw [← flatten_rows t, hrows, withCrlf_flatten]
    simp
  have hfull' : ∀ q ∈ rs.map withCrlf, IsFullRow q := by
    intro q hq
    obtain ⟨p, hp, rfl⟩ := List.mem_map.1 hq
    exact (hfull p hp).withCrlf
  rw [htext, rows_flatten_append hfull', withCrlf_of_not_mem hlast, rows_of_not_mem hlast, hrows]
  simp [withCrlf_of_not_mem hlast]

/-- Indentation has no line endings in it. -/
theorem indentation_withCrlf (r : Text) :
    r.withCrlf.indentation = r.indentation ∧
      r.withCrlf.afterIndentation = r.afterIndentation.withCrlf := by
  have hcut : r.withCrlf = r.indentation ++ r.afterIndentation.withCrlf := by
    conv => lhs; rw [← indentation_append_afterIndentation r]
    rw [withCrlf_append, withCrlf_of_not_mem r.isIndentation_indentation.not_mem_newline]
  have hnil : r.afterIndentation.withCrlf.indentation = [] := by
    have hrest := indentation_afterIndentation r
    cases hr : r.afterIndentation with
    | nil => rfl
    | cons c cs =>
      by_cases hc : c = '\n'
      · subst hc
        rfl
      · rw [hr, indentation, List.takeWhile_cons] at hrest
        rw [withCrlf_cons_of_ne hc, indentation, List.takeWhile_cons]
        split at hrest
        · cases hrest
        · next hindent => rw [if_neg hindent]
  rw [hcut, indentation_append r.isIndentation_indentation,
    afterIndentation_append r.isIndentation_indentation, hnil, List.append_nil]
  refine ⟨rfl, ?_⟩
  have hself := indentation_append_afterIndentation r.afterIndentation.withCrlf
  rwa [hnil, List.nil_append] at hself

end Text

open Text (size)

/-- Rows have the same body with either line ending. -/
theorem Line.body_ofRow_withCrlf {row : Text} (h : Text.IsFullRow row ∨ '\n' ∉ row)
    (hr : '\r' ∉ row) (start start' : Nat) :
    (ofRow start' row.withCrlf).body = (ofRow start row).body := by
  rcases h with h | h
  · rcases ofRow_cases start h with ⟨body, rfl, -⟩ | ⟨body, rfl, hline, -⟩
    · exact absurd (by simp) hr
    · obtain ⟨b, hb, hrow⟩ := h
      obtain ⟨rfl, -⟩ := List.append_inj' hrow rfl
      have hcrlf : Text.withCrlf (body ++ ['\n']) = body ++ ['\r', '\n'] := by
        rw [Text.withCrlf_append, Text.withCrlf_of_not_mem hb]
        rfl
      rw [hline, hcrlf, ofRow]
      simp
  · rw [Text.withCrlf_of_not_mem h, ofRow_of_not_mem start h, ofRow_of_not_mem start' h]

theorem Buffer.lineEnd_eq_add (b : Buffer) (m : Nat) :
    b.lineEnd m = b.lineStart m + Text.size (b.lineText m) := rfl

theorem Buffer.not_mem_newline_lineText (b : Buffer) (m : Nat) : '\n' ∉ b.lineText m := by
  obtain ⟨above, row, below, h, hm⟩ := b.exists_rows_clampLine m
  rw [lineText, ← b.line_clampLine, hm, line_of_rows h]
  exact Line.not_mem_newline_body ((Text.row_cases_of_rows h).imp And.right And.right) _

/-- A document without carriage returns, and a document with the same text and settings in which
every line feed has a carriage return before it. -/
structure CrlfVersion (d e : Document) : Prop where
  not_mem : '\r' ∉ d.text
  text_eq : e.text = d.text.withCrlf
  settings_eq : e.settings = d.settings

namespace CrlfVersion

variable {d e : Document} {above below : List Text} {row u w : Text} {m k offset : Nat}

/-- Every text without carriage returns can be given other line endings. -/
theorem withSettings {t : Text} (h : '\r' ∉ t) (settings : Settings) :
    CrlfVersion (.withSettings t settings) (.withSettings t.withCrlf settings) :=
  ⟨h, rfl, rfl⟩

/-! ### Lines -/

theorem rows_eq (h : CrlfVersion d e) : e.text.rows = d.text.rows.map Text.withCrlf := by
  rw [h.text_eq, Text.rows_withCrlf]

/-- The rows of both documents around a line. -/
theorem rows_of_rows (h : CrlfVersion d e) (hd : d.text.rows = above ++ row :: below) :
    e.text.rows =
      above.map Text.withCrlf ++ row.withCrlf :: below.map Text.withCrlf := by
  rw [h.rows_eq, hd, List.map_append, List.map_cons]

theorem not_mem_row (h : CrlfVersion d e) (hd : d.text.rows = above ++ row :: below) :
    '\r' ∉ row := by
  intro hmem
  refine h.not_mem ?_
  rw [Text.eq_flatten_of_rows hd]
  exact List.mem_append_right _ (List.mem_append_left _ hmem)

theorem tabWidth_eq (h : CrlfVersion d e) : e.buffer.tabWidth = d.buffer.tabWidth := by
  rw [e.tabWidth_eq, d.tabWidth_eq, h.settings_eq]

theorem indentUnit_eq (h : CrlfVersion d e) : e.indentUnit = d.indentUnit := by
  rw [Document.indentUnit, Document.indentUnit, h.settings_eq]

theorem lineCount_eq (h : CrlfVersion d e) : d.lineCount = e.lineCount := by
  rw [Document.lineCount, Document.lineCount, Buffer.lineCount_eq, Buffer.lineCount_eq,
    show e.buffer.text.rows = _ from h.rows_eq, List.length_map]
  rfl

theorem clampLine_eq (h : CrlfVersion d e) (m : Nat) :
    e.buffer.clampLine m = d.buffer.clampLine m :=
  Buffer.clampLine_congr h.lineCount_eq.symm m

theorem hasLine_eq (h : CrlfVersion d e) (m : Nat) : e.buffer.hasLine m = d.buffer.hasLine m :=
  Buffer.hasLine_congr h.lineCount_eq.symm m

/-- A line of both documents, by the rows around it. -/
theorem line_of_rows (h : CrlfVersion d e) (hd : d.text.rows = above ++ row :: below)
    (hm : d.buffer.clampLine m = above.length + 1) :
    d.buffer.line m = Line.ofRow (size above.flatten) row ∧
      e.buffer.line m = Line.ofRow (size (Text.withCrlf above.flatten)) row.withCrlf := by
  have hlength : (above.map Text.withCrlf).length = above.length := List.length_map _
  rw [← d.buffer.line_clampLine, ← e.buffer.line_clampLine, h.clampLine_eq, hm,
    Buffer.line_of_rows hd, ← hlength, Buffer.line_of_rows (h.rows_of_rows hd),
    Text.withCrlf_flatten]
  exact ⟨rfl, rfl⟩

/-- Lines have the same text. -/
theorem lineText_eq (h : CrlfVersion d e) (m : Nat) :
    e.buffer.lineText m = d.buffer.lineText m := by
  obtain ⟨above, row, below, hd, hm⟩ := d.buffer.exists_rows_clampLine m
  obtain ⟨hline, hline'⟩ := h.line_of_rows hd hm
  rw [Buffer.lineText, Buffer.lineText, hline, hline']
  refine Line.body_ofRow_withCrlf ?_ (h.not_mem_row hd) _ _
  exact (Text.row_cases_of_rows hd).imp And.right And.right

theorem isBlank_eq (h : CrlfVersion d e) (m : Nat) : e.buffer.isBlank m = d.buffer.isBlank m := by
  rw [Buffer.isBlank, Buffer.isBlank, h.lineText_eq]

theorem indentation_eq (h : CrlfVersion d e) (m : Nat) :
    e.buffer.indentation m = d.buffer.indentation m := by
  rw [Buffer.indentation, Buffer.indentation, Line.indentation, Line.indentation, ← Buffer.lineText,
    ← Buffer.lineText, h.lineText_eq, h.tabWidth_eq]

/-! ### Offsets within lines -/

/-- A place in the body of a line is at the same distance from its start. -/
theorem crlfOffset_eq (h : CrlfVersion d e) (hu : d.buffer.lineText m = u ++ w) :
    d.text.crlfOffset (d.buffer.lineStart m + size u) = e.buffer.lineStart m + size u := by
  obtain ⟨above, row, below, hd, hm⟩ := d.buffer.exists_rows_clampLine m
  obtain ⟨hline, hline'⟩ := h.line_of_rows hd hm
  have hrow := Line.ofRow_row (size above.flatten) row
  rw [← hline, Line.row, show (d.buffer.line m).body = u ++ w from hu, List.append_assoc] at hrow
  have hnewline : '\n' ∉ u := by
    have hbody := d.buffer.not_mem_newline_lineText m
    rw [hu] at hbody
    exact fun hmem => hbody (List.mem_append_left w hmem)
  have htext : d.text = _ := Text.eq_flatten_of_rows hd
  rw [← hrow, List.append_assoc u] at htext
  rw [Buffer.lineStart, Buffer.lineStart, hline, hline', Line.ofRow_start, Line.ofRow_start, htext,
    Text.crlfOffset_size_add hnewline]

theorem crlfOffset_lineStart (h : CrlfVersion d e) (m : Nat) :
    d.text.crlfOffset (d.buffer.lineStart m) = e.buffer.lineStart m :=
  h.crlfOffset_eq (u := []) rfl

theorem crlfOffset_indentationEnd (h : CrlfVersion d e) (m : Nat) :
    d.text.crlfOffset (d.buffer.indentationEnd m) = e.buffer.indentationEnd m := by
  have hcut := h.crlfOffset_eq (m := m) (Text.indentation_append_afterIndentation _).symm
  rw [Buffer.indentationEnd, Buffer.indentationEnd, Line.indentationEnd, Line.indentationEnd]
  rw [← Buffer.lineText, ← Buffer.lineText, h.lineText_eq]
  exact hcut

/-- The place after the indentation of a line that is found is at the corresponding offset. -/
theorem map_indentationEnd (h : CrlfVersion d e) (found : Option Nat) :
    found.map e.buffer.indentationEnd =
      (found.map d.buffer.indentationEnd).map d.text.crlfOffset := by
  cases found with
  | none => rfl
  | some m => rw [Option.map_some, Option.map_some, Option.map_some, h.crlfOffset_indentationEnd]

theorem crlfOffset_lineEnd (h : CrlfVersion d e) (m : Nat) :
    d.text.crlfOffset (d.buffer.lineEnd m) = e.buffer.lineEnd m := by
  have hcut := h.crlfOffset_eq (m := m) (List.append_nil _).symm
  rw [Buffer.lineEnd_eq_add, Buffer.lineEnd_eq_add, h.lineText_eq, hcut]

theorem crlfOffset_nextLineStart (h : CrlfVersion d e) (m : Nat) :
    d.text.crlfOffset (d.buffer.nextLineStart m) = e.buffer.nextLineStart m := by
  obtain ⟨above, row, below, hd, hm⟩ := d.buffer.exists_rows_clampLine m
  obtain ⟨hline, hline'⟩ := h.line_of_rows hd hm
  have htext : d.text = _ := Text.eq_flatten_of_rows hd
  rw [Buffer.nextLineStart, Buffer.nextLineStart, hline, hline', Line.next, Line.next,
    Line.ofRow_start, Line.ofRow_start, Line.ofRow_row, Line.ofRow_row, htext, ← List.append_assoc,
    ← Text.size_append, Text.crlfOffset_size, Text.withCrlf_append,
    Text.size_append]

/-- In a document without carriage returns every boundary lies in the body of its line. -/
theorem exists_lineText_of_isBoundary (h : CrlfVersion d e) (ho : d.text.IsBoundary offset) :
    ∃ u w, d.buffer.lineText (d.buffer.lineOfOffset offset) = u ++ w ∧
      offset = d.buffer.lineStart (d.buffer.lineOfOffset offset) + size u := by
  obtain ⟨above, row, below, hd, hlo, hhi⟩ :=
    Text.exists_rows_of_offset d.text.rows (Text.rows_ne_nil d.text) offset
  have htext : d.text = above.flatten ++ (row ++ below.flatten) := Text.eq_flatten_of_rows hd
  obtain ⟨p, q, x, hcut, hp, rfl⟩ :=
    Text.exists_append_of_isBoundary (htext ▸ Text.isBoundary_size _ _) ho hlo
  -- the part of the row before the offset
  have hq : q ++ x = row ++ below.flatten := by
    have hdrop := Text.dropBytes_size p (q ++ x)
    rwa [← hcut, htext, ← hp, Text.dropBytes_size, eq_comm] at hdrop
  rw [Buffer.lineOfOffset_of_rows (b := d.buffer) hd hlo hhi, Buffer.lineStart_of_rows hd,
    Buffer.lineText, Buffer.line_of_rows hd, ← hp]
  generalize hbody : (Line.ofRow (size above.flatten) row).body = body
  obtain ⟨rest, hrest, hle⟩ : ∃ rest, q ++ x = body ++ rest ∧ size q ≤ size body := by
    rcases Text.row_cases_of_rows hd with ⟨hne, hfull⟩ | ⟨rfl, hlast⟩
    · rcases Line.ofRow_cases (size above.flatten) hfull with ⟨b, hb, -⟩ | ⟨b, hb, hline, -⟩
      · exact absurd (hb ▸ by simp) (h.not_mem_row hd)
      · have hlt := hhi.resolve_left hne
        have hone : size ['\n'] = 1 := rfl
        rw [hline] at hbody
        obtain rfl : b = body := hbody
        rw [hb, Text.size_append, hone] at hlt
        exact ⟨'\n' :: below.flatten, by rw [hq, hb]; simp, by omega⟩
    · rw [Line.ofRow_of_not_mem _ hlast] at hbody
      obtain rfl : row = body := hbody
      have hsize := congrArg size hq
      rw [List.flatten_nil, List.append_nil, Text.size_append] at hsize
      exact ⟨[], by rw [hq]; simp, by omega⟩
  have htake : q = body.takeBytes (size q) := by
    rw [← Text.takeBytes_append_of_le hle rest, ← hrest, Text.takeBytes_size]
  refine ⟨q, body.dropBytes (size q), ?_, rfl⟩
  conv => rhs; lhs; rw [htake]
  exact (Text.takeBytes_append_dropBytes _ _).symm

end CrlfVersion

/-- A place in the body of a line is on that line, at the column that is reached after what stands
before it. -/
theorem Buffer.column_of_le {b : Buffer} {m k : Nat} (hm : 1 ≤ m) (hle : m ≤ b.lineCount)
    (hk : k ≤ Text.size (b.lineText m)) :
    b.lineOfOffset (b.lineStart m + k) = m ∧
      b.column (b.lineStart m + k) = ((b.lineText m).takeBytes k).displayWidth b.tabWidth := by
  obtain ⟨above, row, below, hd, rfl⟩ := exists_rows hm hle
  have hrow := Line.ofRow_row (Text.size above.flatten) row
  rw [Line.row, ← line_of_rows hd] at hrow
  rw [lineText] at hk
  have hline : b.lineOfOffset (b.lineStart (above.length + 1) + k) = above.length + 1 := by
    rw [lineStart_of_rows hd]
    refine lineOfOffset_of_rows hd (by omega) ?_
    rcases Text.row_cases_of_rows hd with ⟨-, hfull⟩ | ⟨hnil, -⟩
    · have hlt := Line.stop_lt_next hfull (Text.size above.flatten)
      rw [Line.stop, Line.next, Line.ofRow_row, ← line_of_rows hd] at hlt
      exact .inr (by omega)
    · exact .inl hnil
  refine ⟨hline, ?_⟩
  rw [column, hline, Line.before, Line.row, lineStart, Nat.add_sub_cancel_left,
    Text.takeBytes_append_of_le hk, lineText]

namespace CrlfVersion

variable {d e : Document} {m k offset : Nat}

/-- Corresponding places in a line have the same column. -/
theorem column_eq_of_le (h : CrlfVersion d e) (hm : 1 ≤ m) (hle : m ≤ d.lineCount)
    (hk : k ≤ size (d.buffer.lineText m)) :
    e.buffer.column (e.buffer.lineStart m + k) = d.buffer.column (d.buffer.lineStart m + k) := by
  have hle' : m ≤ e.lineCount := h.lineCount_eq ▸ hle
  have hk' : k ≤ size (e.buffer.lineText m) := h.lineText_eq m ▸ hk
  rw [(Buffer.column_of_le hm hle hk).2, (Buffer.column_of_le hm hle' hk').2, h.lineText_eq,
    h.tabWidth_eq]

/-- Corresponding boundaries are on the same line. -/
theorem lineOfOffset_eq (h : CrlfVersion d e) (ho : d.text.IsBoundary offset) :
    e.buffer.lineOfOffset (d.text.crlfOffset offset) = d.buffer.lineOfOffset offset := by
  obtain ⟨hm, hle⟩ := d.buffer.lineOfOffset_mem offset
  have hle' : d.buffer.lineOfOffset offset ≤ e.lineCount := h.lineCount_eq ▸ hle
  obtain ⟨u, w, hu, hoffset⟩ := h.exists_lineText_of_isBoundary ho
  have hk : size u ≤ size (e.buffer.lineText (d.buffer.lineOfOffset offset)) := by
    rw [h.lineText_eq, hu, Text.size_append]
    omega
  have hcut := h.crlfOffset_eq hu
  rw [← hoffset] at hcut
  rw [hcut, (Buffer.column_of_le hm hle' hk).1]

theorem indentationAt_eq (h : CrlfVersion d e) (ho : d.text.IsBoundary offset) :
    e.buffer.indentationAt (d.text.crlfOffset offset) = d.buffer.indentationAt offset := by
  rw [Buffer.indentationAt, Buffer.indentationAt, h.lineOfOffset_eq ho, h.indentation_eq]

/-- Corresponding boundaries have the same column. -/
theorem column_eq (h : CrlfVersion d e) (ho : d.text.IsBoundary offset) :
    e.buffer.column (d.text.crlfOffset offset) = d.buffer.column offset := by
  obtain ⟨hm, hle⟩ := d.buffer.lineOfOffset_mem offset
  obtain ⟨u, w, hu, hoffset⟩ := h.exists_lineText_of_isBoundary ho
  have hk : size u ≤ size (d.buffer.lineText (d.buffer.lineOfOffset offset)) := by
    rw [hu, Text.size_append]
    omega
  have hcut := h.crlfOffset_eq hu
  have hcolumn := h.column_eq_of_le hm hle hk
  rwa [← hcut, ← hoffset] at hcolumn

end CrlfVersion

end Offside
