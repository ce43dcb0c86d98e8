import Offside.Proofs.Agreement.Texts
import Offside.Proofs.CacheTransparency
import Offside.Proofs.IndentUnit
import Offside.Proofs.Revision
import Offside.Proofs.Untouched

/-!
# The column that is written

Setting the indentation of a line puts it at the column that was asked for, whatever the line was
indented with before and in whatever form indentation is written.  The terminator of the line and
what follows its indentation are read off the rest of its row, so they stay, and nothing above the
line notices the change.

* `Line.ending_ofRow_indent`: the terminator of a row with other indentation;
* `Document.text_eq_iff_of_rows`: when another indentation of a row is another text;
* `Document.setIndentation_of_indentation_eq`: a line that has the indentation that is written;
* `Document.lexicalContext_eq_of_agreeAbove`: states above a line, through the cache;
* `indentation_is_written_exactly`.
-/

namespace Offside

/-- The terminator of a row does not depend on its indentation. -/
theorem Line.ending_ofRow_indent {i : Text} (hi : Text.IsIndentation i) (start : Nat) (row : Text) :
    (ofRow start (i ++ row.afterIndentation)).ending = (ofRow start row).ending := by
  have hrow := ofRow_append (q := row.afterIndentation) row.isIndentation_indentation start
  rw [Text.indentation_append_afterIndentation] at hrow
  rw [ofRow_append hi, hrow]

namespace Document

variable {d e : Document} {above below : List Text} {row i : Text} {line column : Nat}

/-- A row with other indentation makes another text. -/
theorem text_eq_iff_of_rows (hd : d.text.rows = above ++ row :: below)
    (he : e.text.rows = above ++ (i ++ row.afterIndentation) :: below) :
    e.text = d.text ↔ row.indentation = i := by
  rw [Text.eq_flatten_of_rows hd, Text.eq_flatten_of_rows he, List.append_cancel_left_eq,
    List.append_left_inj, Text.append_afterIndentation_eq_iff]

/-- Setting the indentation of a line to what it is changes nothing. -/
theorem setIndentation_of_indentation_eq (h : d.text.rows = above ++ row :: below)
    (hrow : row.indentation = d.written column) :
    d.setIndentation (above.length + 1) column = .ok (false, d) := by
  obtain ⟨e, hset, -, -, hsame, -⟩ := setIndentation_of_rows h column
  rw [hset, hsame hrow, decide_eq_false (not_not_intro hrow)]

theorem cacheSound_setIndentation {changed : Bool} (h : d.CacheSound)
    (hset : d.setIndentation line column = .ok (changed, e)) : e.CacheSound := by
  obtain ⟨-, -, hset⟩ := exists_of_bind_eq_ok hset
  obtain ⟨⟨n, f⟩, happly, hset⟩ := exists_of_bind_eq_ok hset
  cases hset
  exact cacheSound_of_apply h happly

/-- A sound cache gives the states that the entries give. -/
theorem lexicalContext_eq_stateAt (h : d.CacheSound) (offset : Nat) :
    (d.lexicalContext offset).1 = d.stateAt offset := by
  have hscan : (d.cachedScannerAt offset).1 = Lexical.Scanner.ofOffset d.text offset :=
    (Lexical.Cache.Sound.scannerAt h offset).1
  rw [stateAt_eq, Lexical.classify, ← hscan]
  rfl

/-- Sound caches agree above a line above which the documents do. -/
theorem lexicalContext_eq_of_agreeAbove (h : AgreeAbove d e line) (hd : d.CacheSound)
    (he : e.CacheSound) {offset : Nat} (ho : offset ≤ d.buffer.lineStart line) :
    (d.lexicalContext offset).1 = (e.lexicalContext offset).1 := by
  rw [lexicalContext_eq_stateAt hd, lexicalContext_eq_stateAt he, h.stateAt_eq ho]

end Document

/-- **Setting the indentation of a line writes the column that is asked for.**  On an existing line
it always succeeds.  Afterwards the indentation of the line is as many columns wide as was asked for,
in tabs or in spaces and with any tab width.  What follows the indentation of the line and its
terminator are the same, and so are all other lines.  Up to the start of the line the lexical state
is the same at every offset, also through the cache.  The operation says whether the text has
changed, and the revision has grown by one if it has; doing the same again changes nothing. -/
theorem indentation_is_written_exactly (d : Document) (line column : Nat) (hlo : 1 ≤ line)
    (hhi : line ≤ d.lineCount) :
    ∃ changed e, d.setIndentation line column = .ok (changed, e) ∧
      e.buffer.indentation line = column ∧
      (e.buffer.lineText line).afterIndentation = (d.buffer.lineText line).afterIndentation ∧
      (e.buffer.line line).ending = (d.buffer.line line).ending ∧
      e.lineCount = d.lineCount ∧ e.settings = d.settings ∧
      (∀ other, 1 ≤ other → other ≤ d.lineCount → other ≠ line → e.row other = d.row other) ∧
      e.buffer.lineStart line = d.buffer.lineStart line ∧
      (∀ offset ≤ d.buffer.lineStart line, e.stateAt offset = d.stateAt offset) ∧
      (d.CacheSound → e.CacheSound ∧ ∀ offset ≤ d.buffer.lineStart line,
        (e.lexicalContext offset).1 = (d.lexicalContext offset).1) ∧
      (changed = true ↔ e.text ≠ d.text) ∧
      e.revision = d.revision + (if changed then 1 else 0) ∧
      e.setIndentation line column = .ok (false, e) := by
  obtain ⟨_, e, hset, hsettings, hagree, hafter⟩ :=
    Document.agreeAbove_setIndentation ⟨hlo, hhi⟩ column
  obtain ⟨above, row, below, hd, rfl⟩ := Buffer.exists_rows (b := d.buffer) hlo hhi
  obtain ⟨e', hset', he, -, hsame, hgrown⟩ := Document.setIndentation_of_rows hd column
  obtain ⟨rfl, rfl⟩ := Prod.mk.inj (Except.ok.inj (hset.symm.trans hset'))
  have hi := d.isIndentation_written column
  have hcount : e.lineCount = d.lineCount :=
    (Document.sameOutline_setIndentation hi hd he).lineCount_eq.symm
  refine ⟨_, e, hset, Document.indentation_written he hsettings, hafter, ?_, hcount, hsettings,
    fun other hone hle hne => Document.row_of_ne hd he hcount hone hle hne, hagree.lineStart_eq,
    fun offset ho => (hagree.symm.stateAt_eq ho).symm, fun hsound => ?_, ?_, ?_, ?_⟩
  · rw [Buffer.line_of_rows hd, Buffer.line_of_rows he, Line.ending_ofRow_indent hi]
  · have hsound' := Document.cacheSound_setIndentation hsound hset
    exact ⟨hsound', fun offset ho =>
      (Document.lexicalContext_eq_of_agreeAbove hagree.symm hsound hsound' ho).symm⟩
  · rw [decide_eq_true_iff, ne_eq, ne_eq, Document.text_eq_iff_of_rows hd he]
  · by_cases hrow : row.indentation = d.written column
    · rw [hsame hrow, decide_eq_false (not_not_intro hrow)]
      rfl
    · rw [hgrown hrow, decide_eq_true hrow]
      rfl
  · refine Document.setIndentation_of_indentation_eq he ?_
    rw [Text.indentation_append hi, Text.indentation_afterIndentation, List.append_nil,
      Document.written, Document.written, hsettings]

/-- A line that is indented with a tab and a form feed, in a document that is told to write tabs of
width zero, with white space behind the indentation. -/
theorem indentation_is_written_exactly_without_tab_width :
    let d := Document.withSettings "if a:\r\n\t\x0c\u00a0b\r\n\tc\n".toList
      { tabWidth := 0, useTabs := true }
    (1 ≤ 2 ∧ 2 ≤ d.lineCount ∧ d.buffer.indentation 2 = 1) ∧
      ∃ e, d.setIndentation 2 3 = .ok (true, e) ∧ e.buffer.indentation 2 = 3 ∧
        (e.buffer.lineText 2).afterIndentation = "\u00a0b".toList ∧
        (e.buffer.line 2).ending = .crlf ∧ e.row 3 = "\tc\n".toList ∧
        (e.lexicalContext 7).1 = {} ∧ e.revision = 1 ∧ e.setIndentation 2 3 = .ok (false, e) := by
  intro d
  have hlines : d.lineCount = 4 := by decide +kernel
  have htwo : d.buffer.indentation 2 = 1 := by decide +kernel
  obtain ⟨changed, e, hset, hcolumn, hafter, hending, -, hsettings, hrows, -, -, hcache, hchanged,
    hrevision, hagain⟩ := indentation_is_written_exactly d 2 3 (by decide) (by omega)
  obtain ⟨-, hlook⟩ := hcache (Document.cacheSound_withSettings _ _)
  -- the line is not where it was before, so the text is not what it was before
  obtain rfl : changed = true := by
    refine hchanged.2 fun htext => ?_
    have htab : e.buffer.tabWidth = d.buffer.tabWidth := by
      rw [e.tabWidth_eq, d.tabWidth_eq, hsettings]
    rw [Buffer.eq_of_text htext htab] at hcolumn
    omega
  refine ⟨⟨by decide, by omega, htwo⟩, e, hset, hcolumn, hafter.trans (by decide +kernel),
    hending.trans (by decide +kernel), (hrows 3 (by decide) (by omega) (by decide)).trans
    (by decide +kernel), (hlook 7 (by decide +kernel)).trans (by decide +kernel), hrevision, hagain⟩

end Offside
