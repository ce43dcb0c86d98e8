import Mathlib.Data.Prod.Lex
import Offside.Command.Run
import Offside.Proofs.Edit
import Offside.Proofs.Partition

/-!
# Positions and offsets

The position of a boundary is read off the rows of the text before it: there are as many lines as
rows, and the column is one more than the number of characters in the last of them.  Going back from
a position to an offset gives the boundary again, unless it lies within a terminator, and a position
that is written down is read as the same position.

* `Text.rows_append`: the rows of two texts put together;
* `Buffer.LinesTile`, `linesTile`: the lines of a text, one after the other;
* `Buffer.lineOfOffset_eq_iff`: the line of an offset;
* `Buffer.position_of_append`, `offsetAt_of_append`: positions and offsets by the text before them;
* `parseLocation_writtenLocation`: positions that are written down;
* `positions_round_trip`.
-/

namespace Offside

open Text (IsBoundary)

namespace Text

theorem rows_append_of_not_mem {r t x : Text} {xs : List Text} (hr : '\n' ∉ r)
    (h : rows t = x :: xs) : rows (r ++ t) = (r ++ x) :: xs := by
  induction r with
  | nil => exact h
  | cons c cs ih =>
    have hc : c ≠ '\n' := fun e => hr (e ▸ List.mem_cons_self)
    exact rows_cons_of_ne hc (ih fun hm => hr (List.mem_cons_of_mem c hm))

theorem not_mem_of_rows_concat {t r : Text} {rs : List Text} (h : rows t = rs ++ [r]) :
    '\n' ∉ r :=
  ((row_cases_of_rows h).resolve_left fun hbelow => hbelow.1 rfl).2

theorem size_of_rows_concat {t r : Text} {rs : List Text} (h : rows t = rs ++ [r]) :
    size t = size rs.flatten + size r := by
  rw [eq_flatten_of_rows h]
  simp

/-- Where two texts meet, the last row of the first goes on with the first row of the second. -/
theorem rows_append {t u r x : Text} {rs xs : List Text} (ht : rows t = rs ++ [r])
    (hu : rows u = x :: xs) : rows (t ++ u) = rs ++ (r ++ x) :: xs := by
  have htext : t = rs.flatten ++ r := by simpa using eq_flatten_of_rows ht
  rw [htext, List.append_assoc, rows_flatten_append (isFullRow_of_rows ht),
    rows_append_of_not_mem (not_mem_of_rows_concat ht) hu]

theorem row_cases_of_rows_cons {t x : Text} {xs : List Text} (h : rows t = x :: xs) :
    xs ≠ [] ∧ IsFullRow x ∨ xs = [] ∧ '\n' ∉ x :=
  row_cases_of_rows (show rows t = [] ++ x :: xs from h)

end Text

/-- What stands before a place of a row is part of the body, unless the place is before the line
feed of a terminator that has a carriage return. -/
theorem Line.isPrefix_body_or {r x : Text} (h : Text.IsFullRow x ∨ '\n' ∉ r ++ x) (start : Nat)
    (hr : '\n' ∉ r) :
    r <+: (ofRow start (r ++ x)).body ∨ (∃ q, r = q ++ ['\r']) ∧ x = ['\n'] := by
  rcases h with hx | hnone
  · obtain ⟨y, hy, rfl⟩ := hx
    have hfull : Text.IsFullRow (r ++ (y ++ ['\n'])) := ⟨r ++ y, by simp [hr, hy], by simp⟩
    rcases ofRow_cases start hfull with ⟨body, hrow, hline⟩ | ⟨body, hrow, hline, -⟩
    · have hcut : (r ++ y) ++ ['\n'] = (body ++ ['\r']) ++ ['\n'] := by simpa using hrow
      have hbody := List.append_cancel_right hcut
      rw [hline]
      rcases List.eq_nil_or_concat y with rfl | ⟨z, c, rfl⟩
      · exact .inr ⟨⟨body, by simpa using hbody⟩, rfl⟩
      · rw [List.concat_eq_append, ← List.append_assoc] at hbody
        exact .inl ⟨z, (List.append_inj' hbody rfl).1⟩
    · rw [← List.append_assoc] at hrow
      rw [hline]
      exact .inl ⟨y, List.append_cancel_right hrow⟩
  · rw [ofRow_of_not_mem start hnone]
    exact .inl (List.prefix_append r x)

namespace Buffer

variable {b : Buffer} {p x r : Text} {rs : List Text}

/-! ### Lines -/

/-- Whether the lines follow each other from the start of the text to its end, each with a line feed
as its last character and nowhere else, apart from the last line, which has none. -/
structure LinesTile (b : Buffer) : Prop where
  first : b.lineStart 1 = 0
  next : ∀ line, 1 ≤ line → line < b.lineCount → b.lineStart (line + 1) = b.nextLineStart line
  last : b.nextLineStart b.lineCount = b.size ∧ b.lineEnd b.lineCount = b.size
  row : ∀ line, 1 ≤ line → line ≤ b.lineCount → ∃ u, '\n' ∉ u ∧
    b.slice? (b.lineStart line) (b.nextLineStart line) =
      some (u ++ if line < b.lineCount then ['\n'] else [])

/-- The rows above the last line. -/
theorem exists_rows_lineCount (b : Buffer) :
    ∃ above row, b.text.rows = above ++ [row] ∧ '\n' ∉ row ∧ b.lineCount = above.length + 1 := by
  obtain ⟨above, row, h, -, hrow⟩ := Text.exists_rows_eq b.text
  exact ⟨above, row, h, hrow, by rw [lineCount_eq, h, List.length_append, List.length_singleton]⟩

theorem linesTile (b : Buffer) : b.LinesTile where
  first := by
    obtain ⟨above, row, below, h, hline⟩ := exists_rows (b := b) (Nat.le_refl 1) b.lineCount_pos
    obtain rfl : above = [] := List.length_eq_zero_iff.1 (by omega)
    exact lineStart_of_rows h
  next line hlo hhi := by
    obtain ⟨above, row, below, h, rfl⟩ := exists_rows hlo (Nat.le_of_lt hhi)
    cases below with
    | nil =>
      rw [lineCount_eq, h] at hhi
      simp at hhi
    | cons r rs =>
      have hnext : b.text.rows = (above ++ [row]) ++ r :: rs := by simp [h]
      have hstart := lineStart_of_rows hnext
      rw [List.length_append, List.length_singleton] at hstart
      rw [hstart, nextLineStart_of_rows h]
      simp
  last := by
    obtain ⟨above, row, h, hrow, hcount⟩ := b.exists_rows_lineCount
    have hsize : b.size = _ := Text.size_of_rows_concat h
    rw [hcount, nextLineStart_of_rows h, lineEnd, line_of_rows h, Line.ofRow_of_not_mem _ hrow,
      hsize]
    exact ⟨rfl, rfl⟩
  row line hlo hhi := by
    obtain ⟨above, row, below, h, rfl⟩ := exists_rows hlo hhi
    have hslice : b.slice? (b.lineStart (above.length + 1)) (b.nextLineStart (above.length + 1)) =
        some row := by
      rw [slice?, lineStart_of_rows h, nextLineStart_of_rows h, Text.eq_flatten_of_rows h,
        Text.slice?_append]
    have hcount : b.lineCount = above.length + 1 + below.length := by
      rw [lineCount_eq, h]
      simp
      omega
    rw [hslice]
    rcases Text.row_cases_of_rows h with ⟨hbelow, u, hu, rfl⟩ | ⟨rfl, hrow⟩
    · have hlt := List.length_pos_iff.2 hbelow
      exact ⟨u, hu, by rw [if_pos (by omega)]⟩
    · exact ⟨row, hrow, by rw [hcount, if_neg (by simp), List.append_nil]⟩

/-- The line of an offset is the one that holds it. -/
theorem lineOfOffset_eq_iff {offset line : Nat} (h : offset < b.size) :
    b.lineOfOffset offset = line ↔
      b.hasLine line = true ∧ b.lineStart line ≤ offset ∧ offset < b.nextLineStart line := by
  rw [hasLine_iff]
  constructor
  · rintro rfl
    obtain ⟨above, row, below, hrows, hlo, hhi⟩ :=
      Text.exists_rows_of_offset b.text.rows (Text.rows_ne_nil b.text) offset
    have hcount := length_le_lineCount hrows
    rw [lineOfOffset_of_rows hrows hlo hhi, lineStart_of_rows hrows, nextLineStart_of_rows hrows]
    refine ⟨⟨by omega, hcount⟩, hlo, ?_⟩
    rcases hhi with rfl | hhi
    · rw [Buffer.size, Text.eq_flatten_of_rows hrows] at h
      simpa using h
    · exact hhi
  · rintro ⟨⟨hone, hcount⟩, hlo, hhi⟩
    obtain ⟨above, row, below, hrows, rfl⟩ := exists_rows hone hcount
    rw [lineStart_of_rows hrows] at hlo
    rw [nextLineStart_of_rows hrows] at hhi
    exact lineOfOffset_of_rows hrows hlo (.inr hhi)

theorem lineOfOffset_of_size_le {offset : Nat} (h : b.size ≤ offset) :
    b.lineOfOffset offset = b.lineCount := by
  obtain ⟨above, row, hrows, -, hcount⟩ := b.exists_rows_lineCount
  rw [hcount]
  have hsize : b.size = _ := Text.size_of_rows_concat hrows
  exact lineOfOffset_of_rows hrows (by omega) (.inl rfl)

/-! ### Positions by the text before them -/

/-- The rows of a text that is cut in two. -/
theorem exists_rows_of_append (h : b.text = p ++ x) (hp : p.rows = rs ++ [r]) :
    ∃ y ys, x.rows = y :: ys ∧ b.text.rows = rs ++ (r ++ y) :: ys := by
  obtain ⟨y, ys, hx⟩ := List.exists_cons_of_ne_nil (Text.rows_ne_nil x)
  exact ⟨y, ys, hx, by rw [h, Text.rows_append hp hx]⟩

/-- The position of a boundary by the rows before it. -/
theorem position_of_append (h : b.text = p ++ x) (hp : p.rows = rs ++ [r]) :
    b.position (Text.size p) = (rs.length + 1, r.length + 1) := by
  obtain ⟨y, ys, hx, hrows⟩ := exists_rows_of_append h hp
  have hsize := Text.size_of_rows_concat hp
  have hafter : ys = [] ∨ Text.size p < Text.size rs.flatten + Text.size (r ++ y) := by
    rcases Text.row_cases_of_rows_cons hx with ⟨-, hfull⟩ | ⟨hnil, -⟩
    · have hpos := hfull.size_pos
      rw [Text.size_append]
      exact .inr (by omega)
    · exact .inl hnil
  have hline : b.lineOfOffset (Text.size p) = rs.length + 1 :=
    lineOfOffset_of_rows hrows (by omega) hafter
  have hbefore : (b.line (rs.length + 1)).before (Text.size p) = r := by
    rw [line_of_rows hrows, Line.before, Line.ofRow_row, Line.ofRow_start, hsize,
      Nat.add_sub_cancel_left, Text.takeBytes_size]
  rw [position, hline, hbefore]

/-- The offset of a line and column, by the rows above. -/
theorem offsetAt_of_rows {row : Text} {above below : List Text}
    (h : b.text.rows = above ++ row :: below) (column : Nat) :
    b.offsetAt (above.length + 1) (column + 1) =
      Text.size above.flatten +
        Text.size ((Line.ofRow (Text.size above.flatten) row).body.take column) := by
  rw [offsetAt, lineStart_of_rows h, lineText, line_of_rows h, Nat.add_sub_cancel]

/-- Whether an offset lies between the carriage return and the line feed of a terminator. -/
def InTerminator (b : Buffer) (offset : Nat) : Prop :=
  ∃ p x : Text, b.text = p ++ '\r' :: '\n' :: x ∧ offset = Text.size p + 1

/-- The position of a boundary leads back to it. -/
theorem offsetAt_of_append (h : b.text = p ++ x) (hp : p.rows = rs ++ [r])
    (hterminator : ¬ b.InTerminator (Text.size p)) :
    b.offsetAt (rs.length + 1) (r.length + 1) = Text.size p := by
  obtain ⟨y, ys, hx, hrows⟩ := exists_rows_of_append h hp
  have hr := Text.not_mem_of_rows_concat hp
  have hy : Text.IsFullRow y ∨ '\n' ∉ r ++ y := by
    refine (Text.row_cases_of_rows_cons hx).imp And.right fun hlast => ?_
    simp [hr, hlast.2]
  rw [offsetAt_of_rows hrows, Text.size_of_rows_concat hp]
  rcases Line.isPrefix_body_or hy (Text.size rs.flatten) hr with hbody | ⟨⟨q, rfl⟩, rfl⟩
  · rw [← List.prefix_iff_eq_take.1 hbody]
  · refine absurd ⟨rs.flatten ++ q, ys.flatten, ?_, ?_⟩ hterminator
    · rw [Text.eq_flatten_of_rows hrows]
      simp
    · rw [Text.size_of_rows_concat hp]
      simp [show Char.utf8Size '\r' = 1 from rfl, Nat.add_assoc]

/-- The position of an offset within a terminator leads back to the end of the line. -/
theorem offsetAt_of_inTerminator {offset : Nat} (h : b.InTerminator offset) :
    b.offsetAt (b.position offset).1 (b.position offset).2 = b.lineEnd (b.lineOfOffset offset) ∧
      offset = b.lineEnd (b.lineOfOffset offset) + 1 := by
  obtain ⟨p, x, htext, rfl⟩ := h
  obtain ⟨rs, r, hp, -, hr⟩ := Text.exists_rows_eq p
  have hreturn : (p ++ ['\r']).rows = rs ++ [r ++ ['\r']] := Text.rows_append hp rfl
  have hcut : b.text = (p ++ ['\r']) ++ '\n' :: x := by rw [htext, List.append_assoc]; rfl
  have hsize : Text.size (p ++ ['\r']) = Text.size p + 1 := by rw [Text.size_append]; rfl
  have hrows : b.text.rows = rs ++ (r ++ ['\r', '\n']) :: x.rows := by
    rw [htext]
    exact Text.rows_append hp rfl
  have hposition := position_of_append hcut hreturn
  rw [hsize] at hposition
  have hline : b.lineOfOffset (Text.size p + 1) = rs.length + 1 := congrArg Prod.fst hposition
  have hrow : Line.ofRow (Text.size rs.flatten) (r ++ ['\r', '\n']) =
      ⟨Text.size rs.flatten, r, .crlf⟩ := by
    simp [Line.ofRow]
  have hend : b.lineEnd (rs.length + 1) = Text.size p := by
    rw [lineEnd, line_of_rows hrows, hrow, Text.size_of_rows_concat hp]
    rfl
  rw [hposition, hline, hend, offsetAt_of_rows hrows, hrow, Text.size_of_rows_concat hp,
    List.take_of_length_le (by simp)]
  exact ⟨rfl, rfl⟩

/-- The place of a line and column has this line and column. -/
theorem position_offsetAt {line column : Nat} (h : b.hasLine line = true) (hlo : 1 ≤ column)
    (hhi : column ≤ (b.lineText line).length + 1) :
    b.position (b.offsetAt line column) = (line, column) := by
  rw [hasLine_iff] at h
  obtain ⟨above, row, below, hrows, rfl⟩ := exists_rows h.1 h.2
  obtain ⟨k, rfl⟩ := Nat.exists_eq_add_of_le' hlo
  rw [lineText, line_of_rows hrows] at hhi
  rw [offsetAt_of_rows hrows]
  have hrow := Line.ofRow_row (Text.size above.flatten) row
  have hbody := Line.not_mem_newline_body ((Text.row_cases_of_rows hrows).imp And.right And.right)
    (Text.size above.flatten)
  generalize Line.ofRow (Text.size above.flatten) row = l at hrow hbody hhi ⊢
  -- the text before the place ends with the characters of the line before it
  have hrest : l.row = l.body.take k ++ (l.body.drop k ++ l.ending.text) := by
    rw [Line.row, ← List.append_assoc, List.take_append_drop]
  have htext : b.text = (above.flatten ++ l.body.take k) ++
      ((l.body.drop k ++ l.ending.text) ++ below.flatten) := by
    rw [Text.eq_flatten_of_rows hrows, ← hrow, hrest]
    simp only [List.append_assoc]
  have hbefore : Text.rows (above.flatten ++ l.body.take k) = above ++ [l.body.take k] := by
    rw [Text.rows_flatten_append (Text.isFullRow_of_rows hrows),
      Text.rows_of_not_mem fun hm => hbody (List.mem_of_mem_take hm)]
  have hposition := position_of_append htext hbefore
  rwa [Text.size_append, List.length_take_of_le (by omega)] at hposition

/-- A later boundary has a later position. -/
theorem strictMonoOn_position (b : Buffer) :
    StrictMonoOn (fun offset => toLex (b.position offset)) {offset | IsBoundary b.text offset} := by
  intro m hm n hn hlt
  obtain ⟨p, q, x, htext, rfl, rfl⟩ := Text.exists_append_of_isBoundary hm hn (Nat.le_of_lt hlt)
  obtain ⟨rs, r, hp, -, -⟩ := Text.exists_rows_eq p
  obtain ⟨y, ys, hq⟩ := List.exists_cons_of_ne_nil (Text.rows_ne_nil q)
  have hpq := Text.rows_append hp hq
  have hfirst := position_of_append htext hp
  rw [← List.append_assoc] at htext
  rw [← Text.size_append] at hlt ⊢
  rw [Prod.Lex.toLex_lt_toLex, hfirst]
  rcases List.eq_nil_or_concat ys with rfl | ⟨zs, z, rfl⟩
  · -- no line feed in between
    have hsecond := position_of_append htext hpq
    obtain rfl : q = y := by simpa [hq] using (Text.flatten_rows q).symm
    have hpos : 0 < q.length := by
      rw [List.length_pos_iff, ← Text.size_pos_iff]
      rw [Text.size_append] at hlt
      omega
    rw [hsecond, List.length_append]
    exact .inr ⟨rfl, by dsimp only; omega⟩
  · have hlast : (p ++ q).rows = (rs ++ (r ++ y) :: zs) ++ [z] := by
      rw [hpq]
      simp
    rw [position_of_append htext hlast]
    exact .inl (by simp)

end Buffer

/-! ### Positions that are written down -/

/-- A position, written as its line and its column with a colon between them. -/
def writtenLocation (position : Nat × Nat) : String :=
  let (line, column) := position
  s!"{line}:{column}"

namespace Text

/-- Decimal digits stand for the number that they are the digits of. -/
theorem digits?_toDigits (n : Nat) : digits? (Nat.toDigits 10 n) = some n := by
  have hall : (Nat.toDigits 10 n).all Char.isDigit = true :=
    List.all_eq_true.2 fun c hc => Nat.isDigit_of_mem_toDigits (by decide) (by decide) hc
  have hvalue := Nat.ofDigitChars_ten_toDigits (n := n)
  simp only [Nat.ofDigitChars, Nat.mul_comm 10] at hvalue
  rw [digits?, hall, List.isEmpty_eq_false_iff.2 Nat.toDigits_ne_nil]
  simpa using hvalue

theorem not_isWhiteSpace_of_isDigit {c : Char} (h : c.isDigit = true) : isWhiteSpace c = false := by
  obtain ⟨hlo, hhi⟩ : 48 ≤ c.val ∧ c.val ≤ 57 := by simpa [Char.isDigit] using h
  have hlo' : 48 ≤ c.toNat := UInt32.le_iff_toNat_le.1 hlo
  have hhi' : c.toNat ≤ 57 := UInt32.le_iff_toNat_le.1 hhi
  simp only [isWhiteSpace, Bool.or_eq_false_iff, Bool.and_eq_false_iff, decide_eq_false_iff_not]
  omega

theorem trimStart_of_forall {t : Text} (h : ∀ c ∈ t, isWhiteSpace c = false) : trimStart t = t := by
  cases t with
  | nil => rfl
  | cons c cs => exact List.dropWhile_cons_of_neg (by simp [h c List.mem_cons_self])

/-- Digits have no white space around them. -/
theorem trim_toDigits (n : Nat) : trim (Nat.toDigits 10 n) = Nat.toDigits 10 n := by
  have hdigits : ∀ c ∈ Nat.toDigits 10 n, isWhiteSpace c = false := fun c hc =>
    not_isWhiteSpace_of_isDigit (Nat.isDigit_of_mem_toDigits (by decide) (by decide) hc)
  rw [trim, trimStart_of_forall hdigits,
    trimStart_of_forall fun c hc => hdigits c (List.mem_reverse.1 hc), List.reverse_reverse]

theorem unsigned?_toDigits {bound n : Nat} (h : n < bound) :
    unsigned? bound (Nat.toDigits 10 n) = some n := by
  rw [unsigned?, digits?_toDigits]
  · simp [h]
  · -- a plus sign is no digit
    intro rest heq
    have hplus : Char.isDigit '+' = true :=
      Nat.isDigit_of_mem_toDigits (by decide) (by decide) (heq ▸ List.mem_cons_self)
    exact absurd hplus (by decide)

end Text

/-- A position that is written down is read as the same position. -/
theorem parseLocation_writtenLocation {line column : Nat} (hline : 1 ≤ line ∧ line < lineBound)
    (hcolumn : 1 ≤ column ∧ column < lineBound) :
    parseLocation (writtenLocation (line, column)) = .ok (line, column) := by
  have hcolon : ∀ c ∈ Nat.toDigits 10 line, (c != ':') = true := by
    intro c hc
    rw [bne_iff_ne]
    rintro rfl
    exact absurd (Nat.isDigit_of_mem_toDigits (by decide) (by decide) hc) (by decide)
  have htext : (writtenLocation (line, column)).toList =
      Nat.toDigits 10 line ++ ':' :: Nat.toDigits 10 column := by
    simp [writtenLocation, toString, Nat.toList_repr]
  have hlocation : location? (writtenLocation (line, column)).toList = some (line, column) := by
    rw [htext, location?, List.dropWhile_append_of_pos hcolon, List.takeWhile_append_of_pos hcolon]
    have hzero : ¬ (line = 0 ∨ column = 0) := by omega
    simp [Text.trim_toDigits, Text.unsigned?_toDigits hline.2, Text.unsigned?_toDigits hcolumn.2,
      hzero]
  rw [parseLocation, hlocation]

/-- **Positions and offsets lead to each other.**  The lines of a text follow each other without
gaps.  An offset within the text is on the one line that holds it, and an offset past the end on the
last line.  The position of a boundary leads back to the boundary, or to the end of the line if the
boundary lies within a terminator, and is read back as it is written.  The offset of a line and a
column that exist has this line and column.  A later boundary has a later position. -/
theorem positions_round_trip (b : Buffer) :
    b.LinesTile ∧
    (∀ offset line, offset < b.size →
      (b.lineOfOffset offset = line ↔
        b.hasLine line = true ∧ b.lineStart line ≤ offset ∧ offset < b.nextLineStart line)) ∧
    (∀ offset, b.size ≤ offset → b.lineOfOffset offset = b.lineCount) ∧
    (∀ offset, IsBoundary b.text offset → ¬ b.InTerminator offset →
      b.offsetAt (b.position offset).1 (b.position offset).2 = offset) ∧
    (∀ offset, (b.position offset).1 < lineBound → (b.position offset).2 < lineBound →
      parseLocation (writtenLocation (b.position offset)) = .ok (b.position offset)) ∧
    (∀ offset, b.InTerminator offset →
      b.offsetAt (b.position offset).1 (b.position offset).2 =
          b.lineEnd (b.lineOfOffset offset) ∧
        offset = b.lineEnd (b.lineOfOffset offset) + 1) ∧
    (∀ line column, b.hasLine line = true → 1 ≤ column → column ≤ (b.lineText line).length + 1 →
      b.position (b.offsetAt line column) = (line, column)) ∧
    StrictMonoOn (fun offset => toLex (b.position offset)) {offset | IsBoundary b.text offset} := by
  refine ⟨b.linesTile, fun _ _ => Buffer.lineOfOffset_eq_iff,
    fun _ => Buffer.lineOfOffset_of_size_le, fun offset hoffset hterminator => ?_,
    fun offset hline hcolumn => ?_, fun _ => Buffer.offsetAt_of_inTerminator,
    fun _ _ => Buffer.position_offsetAt, b.strictMonoOn_position⟩
  · obtain ⟨p, x, htext, rfl⟩ := Text.isBoundary_iff.1 hoffset
    obtain ⟨rs, r, hp, -, -⟩ := Text.exists_rows_eq p
    rw [Buffer.position_of_append htext hp]
    exact Buffer.offsetAt_of_append htext hp hterminator
  · exact parseLocation_writtenLocation ⟨(b.lineOfOffset_mem offset).1, hline⟩
      ⟨Nat.le_add_left _ _, hcolumn⟩

/-- The end of a text, and the line feed of a terminator after a character of two bytes. -/
theorem positions_round_trip_around_return :
    let b := Buffer.ofText "é\r\nab".toList 8
    (b.position 6 = (2, 3) ∧ b.offsetAt 2 3 = 6 ∧
        parseLocation (writtenLocation (2, 3)) = .ok (2, 3)) ∧
      (b.position 3 = (1, 3) ∧ b.offsetAt 1 3 = b.lineEnd 1 ∧ 3 = b.lineEnd 1 + 1) := by
  intro b
  obtain ⟨-, -, -, hback, hwritten, hreturn, -⟩ := positions_round_trip b
  have hend : b.position 6 = (2, 3) := by decide +kernel
  have hfeed : b.position 3 = (1, 3) := by decide +kernel
  have hline : b.lineOfOffset 3 = 1 := congrArg Prod.fst hfeed
  have hno : ¬ b.InTerminator 6 := by
    rintro ⟨p, x, htext, hp⟩
    have hsize := congrArg Text.size htext
    have hsix : Text.size b.text = 6 := by decide +kernel
    simp only [Text.size_append, Text.size_cons] at hsize
    have hone := Char.utf8Size_pos '\r'
    have hone' := Char.utf8Size_pos '\n'
    omega
  have hboundary := hback 6 (by decide +kernel) hno
  have hread := hwritten 6 (by rw [hend]; decide) (by rw [hend]; decide)
  have hlf := hreturn 3 ⟨['é'], ['a', 'b'], by decide +kernel, by decide +kernel⟩
  rw [hend] at hboundary hread
  rw [hfeed, hline] at hlf
  exact ⟨⟨hend, hboundary, hread⟩, hfeed, hlf⟩

end Offside
