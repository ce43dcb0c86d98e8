import Offside.Proofs.Shift
import Offside.Proofs.WriteBack

/-!
# Shifting a region there and back

A shift writes the indentation of every line that it moves anew.  Shifting a region to the right and
back to the left by the same number leads to the columns from before, but not always to the same
text: mixed tabs and spaces or form feeds come back in the form in which the settings write
indentation.

* `Document.MovesRegion`: the lines of a region at other columns, nothing else changed;
* `Document.MovesRegion.trans`: of two moves only the second is seen;
* `Document.rewritten`: the text with the indentation of a region written anew;
* `shift_round_trip`.
-/

namespace Offside

namespace Document

variable {d e f : Document} {start stop line : Nat} {column column' : Nat → Nat}

theorem mem_regionLines_iff : line ∈ d.regionLines start stop ↔
    (start ≤ line ∧ line ≤ stop) ∧ d.buffer.isBlank line = false := by
  rw [regionLines, List.mem_filter, List.mem_range'_1, Bool.not_eq_true']
  constructor
  · rintro ⟨hline, hblank⟩
    exact ⟨by omega, hblank⟩
  · rintro ⟨hline, hblank⟩
    exact ⟨by omega, hblank⟩

/-- A document has its rows one after the other. -/
theorem text_eq_flatten_row (d : Document) :
    d.text = ((List.range' 1 d.lineCount).map d.row).flatten := by
  have hrows : d.text.rows = (List.range' 1 d.lineCount).map d.row := by
    refine List.ext_getElem? fun index => ?_
    by_cases hindex : index < d.lineCount
    · have hrow : d.text.rows[index]? = some (d.row (index + 1)) :=
        getElem?_rows (Nat.le_add_left 1 index) hindex
      rw [hrow, List.getElem?_map, List.getElem?_range' hindex, Option.map_some, Nat.one_mul,
        Nat.add_comm]
    · rw [List.getElem?_eq_none (by rw [length_rows]; omega),
        List.getElem?_eq_none (by rw [List.length_map, List.length_range']; omega)]
  rw [← hrows, Text.flatten_rows]

/-- Rows that are the same in a text are the same in every document of it. -/
theorem row_eq_of_text_eq (h : e.text = d.text) (hlo : 1 ≤ line) (hhi : line ≤ d.lineCount) :
    e.row line = d.row line := by
  have hcount : e.lineCount = d.lineCount := by rw [← length_rows, ← length_rows, h]
  have hrow := getElem?_rows hlo hhi
  rw [← h, getElem?_rows hlo (hcount ▸ hhi)] at hrow
  exact Option.some.inj hrow

/-! ### Moving the lines of a region -/

/-- What a document becomes when the lines of a region that are not blank are put at given columns:
their indentation is written anew, and nothing else changes. -/
structure MovesRegion (d e : Document) (start stop : Nat) (column : Nat → Nat) : Prop where
  outline : SameOutline d e
  settings_eq : e.settings = d.settings
  row_of_mem : ∀ line ∈ d.regionLines start stop,
    e.row line = d.written (column line) ++ (d.row line).afterIndentation
  row_of_not_mem : ∀ line, 1 ≤ line → line ≤ d.lineCount → line ∉ d.regionLines start stop →
    e.row line = d.row line
  indentation_eq : ∀ line ∈ d.regionLines start stop, e.buffer.indentation line = column line

/-- The lines of a region that are not blank can be put at any columns. -/
theorem exists_movesRegion (hregion : 1 ≤ start ∧ start ≤ stop ∧ stop ≤ d.lineCount)
    (column : Nat → Nat) :
    ∃ n e, d.apply ((d.regionLines start stop).map fun l => d.indentationEdit l (column l)) =
        .ok (n, e) ∧ MovesRegion d e start stop column := by
  have hsorted := d.pairwise_regionLines start stop
  have hlines := mem_regionLines hregion
  obtain ⟨e, happly, hsettings, hrows⟩ := apply_indentationEdits column hsorted hlines
  refine ⟨_, e, happly, sameOutline_apply column hsorted hlines happly, hsettings, ?_, ?_, ?_⟩
  · intro line hmem
    obtain ⟨above, row, below, hd, rfl⟩ :=
      Buffer.exists_rows (b := d.buffer) (hlines line hmem).1 (hlines line hmem).2
    rw [row_of_indentationEdits column hd hrows, newIndentation, if_pos hmem, Text.indentWith,
      row_of_rows hd]
  · intro line hlo hhi hmem
    obtain ⟨above, row, below, hd, rfl⟩ := Buffer.exists_rows (b := d.buffer) hlo hhi
    rw [row_of_indentationEdits column hd hrows, newIndentation, if_neg hmem, Text.indentWith,
      row_of_rows hd]
  · exact fun line hmem => indentation_of_indentationEdits hsettings hrows (hlines line hmem) hmem

theorem exists_shiftRight_movesRegion
    (hregion : 1 ≤ start ∧ start ≤ stop ∧ stop ≤ d.lineCount) (count : Option Nat) :
    ∃ n e, d.shiftRight start stop count = .ok (n, e) ∧
      MovesRegion d e start stop fun l => d.buffer.indentation l + count.getD d.indentUnit := by
  rw [shiftRight_of_checkRegion (checkRegion_of_le hregion.1 hregion.2.1 hregion.2.2)]
  exact exists_movesRegion hregion _

/-- A region whose lines are indented far enough can be shifted to the left. -/
theorem exists_shiftLeft_movesRegion
    (hregion : 1 ≤ start ∧ start ≤ stop ∧ stop ≤ d.lineCount) (count : Option Nat)
    (hcount : ∀ line ∈ d.regionLines start stop,
      count.getD d.indentUnit ≤ d.buffer.indentation line) :
    ∃ n e, d.shiftLeft start stop count = .ok (n, e) ∧
      MovesRegion d e start stop fun l => d.buffer.indentation l - count.getD d.indentUnit := by
  have hnone : ((d.regionLines start stop).find? fun l =>
      decide (d.buffer.indentation l < count.getD d.indentUnit)) = none := by
    refine List.find?_eq_none.2 fun l hl => ?_
    simpa using hcount l hl
  rw [shiftLeft_of_checkRegion (checkRegion_of_le hregion.1 hregion.2.1 hregion.2.2), hnone]
  exact exists_movesRegion hregion _

namespace MovesRegion

theorem lineCount_eq (h : MovesRegion d e start stop column) : e.lineCount = d.lineCount :=
  h.outline.lineCount_eq.symm

/-- The same lines of the region are blank afterwards. -/
theorem regionLines_eq (h : MovesRegion d e start stop column) :
    e.regionLines start stop = d.regionLines start stop :=
  List.filter_congr fun l _ => congrArg not (h.outline.isBlank_eq l).symm

theorem written_eq (h : MovesRegion d e start stop column) (c : Nat) :
    e.written c = d.written c := by
  rw [written, written, h.settings_eq]

theorem indentUnit_eq (h : MovesRegion d e start stop column) : e.indentUnit = d.indentUnit := by
  rw [indentUnit, indentUnit, h.settings_eq]

theorem afterIndentation_eq (h : MovesRegion d e start stop column) (hlo : 1 ≤ line)
    (hhi : line ≤ d.lineCount) : (e.row line).afterIndentation = (d.row line).afterIndentation := by
  by_cases hmem : line ∈ d.regionLines start stop
  · rw [h.row_of_mem line hmem, Text.afterIndentation_append (d.isIndentation_written _),
      Text.afterIndentation_afterIndentation]
  · rw [h.row_of_not_mem line hlo hhi hmem]

/-- After two moves of a region its lines are where the second has put them. -/
theorem trans (hregion : 1 ≤ start ∧ start ≤ stop ∧ stop ≤ d.lineCount)
    (h : MovesRegion d e start stop column) (h' : MovesRegion e f start stop column') :
    MovesRegion d f start stop column' where
  outline := h.outline.trans h'.outline
  settings_eq := h'.settings_eq.trans h.settings_eq
  row_of_mem line hmem := by
    have hline := mem_regionLines hregion line hmem
    rw [h'.row_of_mem line (h.regionLines_eq ▸ hmem), h.written_eq,
      h.afterIndentation_eq hline.1 hline.2]
  row_of_not_mem line hlo hhi hmem := by
    rw [h'.row_of_not_mem line hlo (h.lineCount_eq ▸ hhi) (h.regionLines_eq ▸ hmem),
      h.row_of_not_mem line hlo hhi hmem]
  indentation_eq line hmem := h'.indentation_eq line (h.regionLines_eq ▸ hmem)

/-- Only the columns of the lines of the region count. -/
theorem congr (h : MovesRegion d e start stop column)
    (heq : ∀ line ∈ d.regionLines start stop, column line = column' line) :
    MovesRegion d e start stop column' where
  outline := h.outline
  settings_eq := h.settings_eq
  row_of_mem line hmem := by rw [h.row_of_mem line hmem, heq line hmem]
  row_of_not_mem := h.row_of_not_mem
  indentation_eq line hmem := (h.indentation_eq line hmem).trans (heq line hmem)

end MovesRegion

/-! ### Indentation written anew -/

/-- The row of a line; if the line is in a region and not blank, with the indentation that is
written for its column. -/
def rewrittenRow (d : Document) (start stop line : Nat) : Text :=
  if (start ≤ line ∧ line ≤ stop) ∧ d.buffer.isBlank line = false then
    indentString (d.buffer.indentation line) d.settings.useTabs d.settings.tabWidth ++
      (d.row line).afterIndentation
  else d.row line

/-- The text of a document with the indentation of the lines of a region that are not blank written
anew. -/
def rewritten (d : Document) (start stop : Nat) : Text :=
  ((List.range' 1 d.lineCount).map (d.rewrittenRow start stop)).flatten

/-- Moving the lines of a region to where they are writes their indentation anew. -/
theorem MovesRegion.row_eq_rewrittenRow (h : MovesRegion d e start stop d.buffer.indentation)
    (hlo : 1 ≤ line) (hhi : line ≤ d.lineCount) : e.row line = d.rewrittenRow start stop line := by
  rw [rewrittenRow]
  split
  · next hmem => exact h.row_of_mem line (mem_regionLines_iff.2 hmem)
  · next hmem => exact h.row_of_not_mem line hlo hhi fun hline => hmem (mem_regionLines_iff.1 hline)

theorem MovesRegion.text_eq_rewritten (h : MovesRegion d e start stop d.buffer.indentation) :
    e.text = d.rewritten start stop := by
  rw [text_eq_flatten_row, rewritten, h.lineCount_eq]
  congr 1
  refine List.map_congr_left fun line hmem => ?_
  have hline := List.mem_range'_1.1 hmem
  exact h.row_eq_rewrittenRow (by omega) (by omega)

/-- A row stays as it is if its indentation has the form that is written. -/
theorem rewrittenRow_eq_iff (hlo : 1 ≤ line) (hhi : line ≤ d.lineCount) :
    d.rewrittenRow start stop line = d.row line ↔
      ((start ≤ line ∧ line ≤ stop) ∧ d.buffer.isBlank line = false →
        (d.buffer.lineText line).indentation =
          indentString (d.buffer.indentation line) d.settings.useTabs d.settings.tabWidth) := by
  obtain ⟨above, row, below, hd, rfl⟩ := Buffer.exists_rows (b := d.buffer) hlo hhi
  rw [rewrittenRow, lineText_indentation hd, row_of_rows hd]
  split
  · next hmem => rw [Text.append_afterIndentation_eq_iff, imp_iff_right hmem]
  · next hmem => exact iff_of_true rfl fun h => absurd h hmem

/-- Moving the lines of a region to where they are restores the text if their indentation has the
form that is written. -/
theorem MovesRegion.text_eq_iff (hregion : 1 ≤ start ∧ start ≤ stop ∧ stop ≤ d.lineCount)
    (h : MovesRegion d e start stop d.buffer.indentation) :
    e.text = d.text ↔ ∀ line, start ≤ line → line ≤ stop → d.buffer.isBlank line = false →
      (d.buffer.lineText line).indentation =
        indentString (d.buffer.indentation line) d.settings.useTabs d.settings.tabWidth := by
  constructor
  · intro htext line hstart hstop hblank
    have hlo : 1 ≤ line := by omega
    have hhi : line ≤ d.lineCount := by omega
    refine (rewrittenRow_eq_iff hlo hhi).1 ?_ ⟨⟨hstart, hstop⟩, hblank⟩
    rw [← h.row_eq_rewrittenRow hlo hhi, row_eq_of_text_eq htext hlo hhi]
  · intro hform
    rw [h.text_eq_rewritten, rewritten, text_eq_flatten_row]
    congr 1
    refine List.map_congr_left fun line hmem => ?_
    have hline := List.mem_range'_1.1 hmem
    exact (rewrittenRow_eq_iff (by omega) (by omega)).2 fun hin =>
      hform line hin.1.1 hin.1.2 hin.2

end Document

/-- **Shifting a region to the right and back writes its indentation anew.**  In a region of
existing lines both shifts succeed, by the same number of columns or both by the indent unit.  The
first one puts every line of the region that is not blank that many columns further to the right;
blank lines, lines outside the region and all that follows the indentation of a line stay as they
are.  The second one leads to the text from before with the indentation of the lines that moved in
the form that the settings ask for, so the text is the same as before exactly if it had that form.
-/
theorem shift_round_trip (d : Document) (start stop : Nat) (hstart : 1 ≤ start)
    (hle : start ≤ stop) (hstop : stop ≤ d.lineCount) (count : Option Nat) :
    ∃ n e m f, d.shiftRight start stop count = .ok (n, e) ∧
      e.shiftLeft start stop count = .ok (m, f) ∧
      e.lineCount = d.lineCount ∧
      (∀ line, 1 ≤ line → line ≤ d.lineCount →
        (e.row line).afterIndentation = (d.row line).afterIndentation ∧
        if (start ≤ line ∧ line ≤ stop) ∧ d.buffer.isBlank line = false then
          e.buffer.indentation line = d.buffer.indentation line + count.getD d.indentUnit
        else e.row line = d.row line) ∧
      f.text = d.rewritten start stop ∧
      (f.text = d.text ↔ ∀ line, start ≤ line → line ≤ stop → d.buffer.isBlank line = false →
        (d.buffer.lineText line).indentation =
          indentString (d.buffer.indentation line) d.settings.useTabs d.settings.tabWidth) := by
  have hregion : 1 ≤ start ∧ start ≤ stop ∧ stop ≤ d.lineCount := ⟨hstart, hle, hstop⟩
  obtain ⟨n, e, hright, hmoved⟩ := Document.exists_shiftRight_movesRegion hregion count
  have hfar : ∀ line ∈ e.regionLines start stop,
      count.getD e.indentUnit ≤ e.buffer.indentation line := by
    intro line hmem
    rw [hmoved.indentation_eq line (hmoved.regionLines_eq ▸ hmem), hmoved.indentUnit_eq]
    omega
  obtain ⟨m, f, hleft, hback⟩ :=
    Document.exists_shiftLeft_movesRegion (hmoved.lineCount_eq ▸ hregion) count hfar
  -- the line is back at its column
  have hcolumn : ∀ line ∈ d.regionLines start stop,
      e.buffer.indentation line - count.getD e.indentUnit = d.buffer.indentation line := by
    intro line hmem
    rw [hmoved.indentation_eq line hmem, hmoved.indentUnit_eq, Nat.add_sub_cancel]
  have hboth := (hmoved.trans hregion hback).congr hcolumn
  refine ⟨n, e, m, f, hright, hleft, hmoved.lineCount_eq, fun line hlo hhi => ?_,
    hboth.text_eq_rewritten, hboth.text_eq_iff hregion⟩
  refine ⟨hmoved.afterIndentation_eq hlo hhi, ?_⟩
  split
  · next hmem => exact hmoved.indentation_eq line (Document.mem_regionLines_iff.2 hmem)
  · next hmem =>
    refine hmoved.row_of_not_mem line hlo hhi fun hline => hmem ?_
    exact Document.mem_regionLines_iff.1 hline

/-- A tab after a space comes back as spaces, while the blank line and the line below the region
stay as they are. -/
theorem shift_round_trip_through_tab :
    let d := Document.ofText "if a:\n \tb\r\n \u00a0\n\tc\n".toList
    (d.lineCount = 5 ∧ d.buffer.indentation 2 = 8) ∧
      ∃ n e m f, d.shiftRight 1 3 (some 3) = .ok (n, e) ∧ e.shiftLeft 1 3 (some 3) = .ok (m, f) ∧
        e.buffer.indentation 2 = 11 ∧ e.row 3 = " \u00a0\n".toList ∧ f.text ≠ d.text ∧
        f.text = "if a:\n        b\r\n \u00a0\n\tc\n".toList := by
  intro d
  have hlines : d.lineCount = 5 := by decide +kernel
  have htwo : d.buffer.indentation 2 = 8 := by decide +kernel
  obtain ⟨n, e, m, f, hright, hleft, -, hrows, htext, hsame⟩ :=
    shift_round_trip d 1 3 (by decide) (by decide) (by omega) (some 3)
  have hrewritten : d.rewritten 1 3 = "if a:\n        b\r\n \u00a0\n\tc\n".toList := by
    decide +kernel
  have hmoved := (hrows 2 (by decide) (by omega)).2
  rw [if_pos (by decide +kernel), htwo] at hmoved
  have hblank := (hrows 3 (by decide) (by omega)).2
  rw [if_neg (by decide +kernel)] at hblank
  refine ⟨⟨hlines, htwo⟩, n, e, m, f, hright, hleft, hmoved, hblank.trans (by decide +kernel), ?_,
    htext.trans hrewritten⟩
  intro heq
  exact absurd (hsame.1 heq 2 (by decide) (by decide) (by decide +kernel)) (by decide +kernel)

end Offside
