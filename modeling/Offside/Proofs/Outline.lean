import Offside.Status
import Offside.Proofs.Lexical.CodeView
import Offside.Proofs.Lexical.Entries
import Offside.Proofs.SameStatements

/-!
# The outline of a text

The outline of a text is the list of its rows without their indentation.  Documents with the same
outline have the same structure: on every line the scanner is in the same state up to offsets, and
the lines continue, form statements and begin blocks in the same way.

* `Text.outline`, `SameOutline`;
* `SameOutline.shape_lineStart`, `shape_after`: the scanner between lines;
* `SameOutline.continuation_eq`, `isBlankOrComment_eq`, `isBlockHeader_eq`: what lines are;
* `SameOutline.sameStatements`: the statements that they form.
-/

namespace Offside

open Lexical
open Text (size)

/-- The rows of a text without their indentation. -/
def Text.outline (t : Text) : List Text := t.rows.map Text.afterIndentation

/-- Two documents whose rows differ in their indentation only. -/
def SameOutline (d e : Document) : Prop := d.text.outline = e.text.outline

/-- Nothing is left to be skipped at the start of a line. -/
theorem Document.skip_read_above {d : Document} {above below : List Text} {row : Text}
    (h : d.text.rows = above ++ row :: below) (x : Text) :
    (({} : Scanner).read [] above.flatten x).skip = 0 :=
  Scanner.skip_read_of_endsLine Reached.init rfl (Text.endsLine_flatten (Text.isFullRow_of_rows h)) x

/-- The state after the first part of a row. -/
theorem Document.stateAt_of_rows {d : Document} {above below : List Text} {p r : Text}
    (h : d.text.rows = above ++ (p ++ r) :: below) :
    d.stateAt (size above.flatten + size p) =
      (({} : Scanner).read [] (above.flatten ++ p) (r ++ below.flatten)).state := by
  have htext : d.text = (above.flatten ++ p) ++ (r ++ below.flatten) := by
    rw [Text.eq_flatten_of_rows h]
    simp
  rw [stateAt_eq, classify, htext, ← Text.size_append, Scanner.ofOffset_size]

/-- The scanner at the start of a line, before the rows from there on. -/
theorem Document.entry_of_rows_append {d : Document} {above rest : List Text}
    (h : d.text.rows = above ++ rest) (hne : rest ≠ []) :
    d.entry (above.length + 1) = Entry.between above.flatten rest.flatten := by
  obtain ⟨row, below, rfl⟩ := List.exists_cons_of_ne_nil hne
  rw [entry_of_rows h, List.flatten_cons]

/-- Lines end with a colon if the last visible code on their rows is one outside brackets. -/
theorem Document.endsWithColon_of_rows {d : Document} {above mid below : List Text} {row : Text}
    (h : d.text.rows = above ++ (mid ++ row :: below)) {s : Scanner}
    (hs : s = ({} : Scanner).read [] above.flatten (mid ++ row :: below).flatten) :
    d.endsWithColon (above.length + 1) (above.length + mid.length + 1) =
      (codeView (s.codeRead s.state.depth above.flatten.reverse (mid.flatten ++ row)
        below.flatten)).getLast?.any fun k => k.1 == ':' && k.2 == 0 := by
  have hrow : d.text.rows = (above ++ mid) ++ row :: below := by rw [h, List.append_assoc]
  have hline := Buffer.line_of_rows (b := d.buffer) hrow
  rw [List.length_append] at hline
  -- the row is the body of its line followed by the terminator, which is white space
  generalize hl : Line.ofRow (size (above ++ mid).flatten) row = l at hline
  have hbody : row = l.body ++ l.ending.text := by
    have hrow' := Line.ofRow_row (size (above ++ mid).flatten) row
    rw [hl, Line.row] at hrow'
    exact hrow'.symm
  have hoffset : s.offset = size above.flatten := by rw [hs, Scanner.read_offset, Nat.zero_add]
  have hstop : d.buffer.lineEnd (above.length + mid.length + 1) =
      s.offset + size (mid.flatten ++ l.body) := by
    rw [Buffer.lineEnd, hline, Line.stop, ← hl, Line.ofRow_start, hoffset]
    simp only [List.flatten_append, Text.size_append]
    omega
  have hflat : (mid ++ row :: below).flatten =
      (mid.flatten ++ l.body) ++ (l.ending.text ++ below.flatten) := by
    rw [List.flatten_append, List.flatten_cons, hbody]
    simp
  have hchars : d.codeCharsOfLines (above.length + 1)
      (d.buffer.lineEnd (above.length + mid.length + 1)) =
        s.codeRead s.state.depth above.flatten.reverse (mid.flatten ++ l.body)
          (l.ending.text ++ below.flatten) := by
    rw [codeCharsOfLines, entry_of_rows_append h (by simp), Entry.codeChars, Entry.between,
      ← hs, hstop, hflat, Scanner.codeChars_size_add]
  have hview : codeView (s.codeRead s.state.depth above.flatten.reverse (mid.flatten ++ row)
      below.flatten) = codeView (s.codeRead s.state.depth above.flatten.reverse
        (mid.flatten ++ l.body) (l.ending.text ++ below.flatten)) := by
    rw [hbody, ← List.append_assoc, Scanner.codeRead_append, codeView_append,
      Scanner.codeView_of_isWhiteSpace l.ending.isWhiteSpace_text, List.append_nil]
  rw [hview, ← hchars, endsWithColon, codeView, List.getLast?_map, Option.any_map]
  rfl

/-- Written and other indentation ends in no backslash. -/
theorem Text.takeWhile_backslash {i : Text} (hi : IsIndentation i) (b : Text) :
    (i ++ b).reverse.takeWhile (· == '\\') = b.reverse.takeWhile (· == '\\') := by
  have hnil : i.reverse.takeWhile (· == '\\') = [] := by
    cases hr : i.reverse with
    | nil => rfl
    | cons c cs =>
      have hc := hi c (List.mem_reverse.1 (hr ▸ List.mem_cons_self))
      have hne : (c == '\\') = false := by
        rw [beq_eq_false_iff_ne]
        rintro rfl
        exact absurd hc (by decide)
      simp [hne]
  rw [List.reverse_append, List.takeWhile_append, hnil, List.append_nil]
  split
  · next h => rw [(List.takeWhile_prefix _).eq_of_length h]
  · rfl

theorem blockKeyword?_of_afterIndentation {s t : Text}
    (h : s.afterIndentation = t.afterIndentation) : blockKeyword? s = blockKeyword? t := by
  simp only [blockKeyword?, blockKeywordEnd?, h]
  split
  · split <;> rfl
  · rfl

namespace SameOutline

variable {d e f : Document} {m : Nat}

theorem refl (d : Document) : SameOutline d d := rfl

theorem symm (h : SameOutline d e) : SameOutline e d := Eq.symm h

theorem trans (h : SameOutline d e) (h' : SameOutline e f) : SameOutline d f := Eq.trans h h'

theorem lineCount_eq (h : SameOutline d e) : d.lineCount = e.lineCount := by
  have hlength := congrArg List.length h
  rw [Text.outline, Text.outline, List.length_map, List.length_map] at hlength
  rw [Document.lineCount, Document.lineCount, Buffer.lineCount_eq, Buffer.lineCount_eq]
  exact hlength

theorem clampLine_eq (h : SameOutline d e) (m : Nat) :
    d.buffer.clampLine m = e.buffer.clampLine m :=
  Buffer.clampLine_congr h.lineCount_eq m

theorem hasLine_eq (h : SameOutline d e) (m : Nat) : d.buffer.hasLine m = e.buffer.hasLine m :=
  Buffer.hasLine_congr h.lineCount_eq m

/-! ### Rows -/

/-- The rows of a document with a given outline, cut where those of the other one are. -/
theorem exists_rows_append (h : SameOutline d e) {above below : List Text}
    (hd : d.text.rows = above ++ below) :
    ∃ above' below', e.text.rows = above' ++ below' ∧
      above.map Text.afterIndentation = above'.map Text.afterIndentation ∧
      below.map Text.afterIndentation = below'.map Text.afterIndentation := by
  have hmap : e.text.rows.map Text.afterIndentation =
      above.map Text.afterIndentation ++ below.map Text.afterIndentation := by
    rw [← List.map_append, ← hd]
    exact h.symm
  obtain ⟨above', below', he, ha, hb⟩ := List.map_eq_append_iff.1 hmap
  exact ⟨above', below', he, ha.symm, hb.symm⟩

/-- The rows of both documents around a line. -/
theorem exists_rows (h : SameOutline d e) (hm : 1 ≤ m) (hle : m ≤ d.lineCount) :
    ∃ above row below above' row' below', d.text.rows = above ++ row :: below ∧
      e.text.rows = above' ++ row' :: below' ∧ m = above.length + 1 ∧
      above.map Text.afterIndentation = above'.map Text.afterIndentation ∧
      row.afterIndentation = row'.afterIndentation ∧
      below.map Text.afterIndentation = below'.map Text.afterIndentation := by
  obtain ⟨above, row, below, hd, hl⟩ := Buffer.exists_rows hm hle
  obtain ⟨above', rest, he, ha, hr⟩ := h.exists_rows_append hd
  cases rest with
  | nil => cases hr
  | cons row' below' =>
    obtain ⟨hrow, hbelow⟩ := List.cons_eq_cons.1 hr
    exact ⟨above, row, below, above', row', below', hd, he, hl, ha, hrow, hbelow⟩

/-! ### The scanner -/

section Rows

variable {above below above' below' : List Text} {row row' : Text}

/-- The rows above a line are read in the same way. -/
theorem sameReading_above (hd : d.text.rows = above ++ row :: below)
    (ha : above.map Text.afterIndentation = above'.map Text.afterIndentation) (x y : Text) :
    Scanner.SameReading {} {} [] [] above.flatten above'.flatten x y :=
  Scanner.sameReading_rows Reached.init Reached.init rfl rfl ha (Text.isFullRow_of_rows hd) x y

/-- The first parts of two rows are read in the same way up to a place where both texts look the
same, or past a line feed. -/
theorem shape_read_row (hd : d.text.rows = above ++ row :: below)
    (ha : above.map Text.afterIndentation = above'.map Text.afterIndentation) {i j q x y : Text}
    (hi : Text.IsIndentation i) (hj : Text.IsIndentation j)
    (hend : SameLook x y ∨ ∃ b, q = b ++ ['\n']) :
    (({} : Scanner).read [] (above.flatten ++ (i ++ q)) x).shape =
      (({} : Scanner).read [] (above'.flatten ++ (j ++ q)) y).shape := by
  have habove := sameReading_above hd ha (i ++ q ++ x) (j ++ q ++ y)
  have hrow := Scanner.sameReading_row (Reached.init.read (i ++ q ++ x))
    (Reached.init.read (j ++ q ++ y)) (Document.skip_read_above hd _) habove.1 hi hj hend
  exact (habove.append hrow).1

/-- A row is full or the last one, and so is the other. -/
theorem row_end (hd : d.text.rows = above ++ row :: below)
    (hb : below.map Text.afterIndentation = below'.map Text.afterIndentation) :
    SameLook below.flatten below'.flatten ∨ ∃ b, row.afterIndentation = b ++ ['\n'] := by
  rcases Text.row_cases_of_rows hd with ⟨-, hfull⟩ | ⟨rfl, -⟩
  · obtain ⟨b, -, hb⟩ := Text.isFullRow_afterIndentation hfull
    exact .inr ⟨b, hb⟩
  · obtain rfl : below' = [] := by simpa using hb.symm
    exact .inl (SameLook.refl _)

end Rows

/-- At the start of a line the states are the same up to offsets. -/
theorem shape_lineStart (h : SameOutline d e) (m : Nat) :
    (d.lineStartState m).shape = (e.lineStartState m).shape := by
  rw [d.lineStartState_clampLine, e.lineStartState_clampLine, ← h.clampLine_eq]
  obtain ⟨above, row, below, above', row', below', hd, he, hl, ha, -, -⟩ :=
    h.exists_rows (d.buffer.clampLine_mem m).1 (d.buffer.clampLine_mem m).2
  have hlength : above.length = above'.length := by simpa using congrArg List.length ha
  rw [hl, Document.lineStartState_of_rows hd, hlength, Document.lineStartState_of_rows he]
  exact Scanner.state_of_shape (sameReading_above hd ha _ _).1

/-- After a line the states are the same up to offsets. -/
theorem shape_after (h : SameOutline d e) (hm : 1 ≤ m) (hle : m ≤ d.lineCount) :
    (d.stateAt (d.buffer.nextLineStart m)).shape =
      (e.stateAt (e.buffer.nextLineStart m)).shape := by
  obtain ⟨above, row, below, above', row', below', hd, he, rfl, ha, hr, hb⟩ := h.exists_rows hm hle
  have hlength : above.length = above'.length := by simpa using congrArg List.length ha
  have hd' : d.text.rows = above ++ (row ++ []) :: below := by simpa using hd
  have he' : e.text.rows = above' ++ (row' ++ []) :: below' := by simpa using he
  have hsame := Scanner.sameReading_rows_append Reached.init Reached.init rfl rfl ha
    (Text.isFullRow_of_rows hd) hr (row_end hd hb)
  have hnext := Buffer.nextLineStart_of_rows (b := e.buffer) he
  rw [← hlength] at hnext
  rw [Buffer.nextLineStart_of_rows hd, hnext, Document.stateAt_of_rows hd',
    Document.stateAt_of_rows he']
  exact Scanner.state_of_shape hsame.1

/-! ### Lines -/

/-- The text of a line after its indentation is the same. -/
theorem afterIndentation_eq (h : SameOutline d e) (m : Nat) :
    (d.buffer.lineText m).afterIndentation = (e.buffer.lineText m).afterIndentation := by
  have hclamp : ∀ b : Buffer, b.lineText m = b.lineText (b.clampLine m) := by
    intro b
    rw [Buffer.lineText, Buffer.lineText, Buffer.line, Buffer.line, Buffer.clampLine_clampLine]
  rw [hclamp d.buffer, hclamp e.buffer, ← h.clampLine_eq]
  obtain ⟨above, row, below, above', row', below', hd, he, hl, ha, hr, -⟩ :=
    h.exists_rows (d.buffer.clampLine_mem m).1 (d.buffer.clampLine_mem m).2
  have hlength : above.length = above'.length := by simpa using congrArg List.length ha
  rw [hl, Buffer.lineText, Buffer.line_of_rows hd, hlength, Buffer.lineText,
    Buffer.line_of_rows he, Line.afterIndentation_body_ofRow, Line.afterIndentation_body_ofRow, hr]

theorem trimStart_eq (h : SameOutline d e) (m : Nat) :
    (d.buffer.lineText m).trimStart = (e.buffer.lineText m).trimStart :=
  Text.trimStart_of_afterIndentation (h.afterIndentation_eq m)

theorem inString_eq (h : SameOutline d e) (m : Nat) :
    (d.lineStartState m).inString = (e.lineStartState m).inString :=
  State.inString_of_shape (h.shape_lineStart m)

theorem isBlank_eq (h : SameOutline d e) (m : Nat) : d.buffer.isBlank m = e.buffer.isBlank m := by
  have hiff : d.buffer.isBlank m = true ↔ e.buffer.isBlank m = true := by
    rw [Buffer.isBlank, Buffer.isBlank, Text.isBlank_iff_trimStart, Text.isBlank_iff_trimStart,
      h.trimStart_eq]
  exact Bool.eq_iff_iff.2 hiff

theorem isBlankOrComment_eq (h : SameOutline d e) (m : Nat) :
    d.isBlankOrComment m = e.isBlankOrComment m := by
  rw [Document.isBlankOrComment, Document.isBlankOrComment, h.trimStart_eq, h.inString_eq]

theorem blockKeyword?_eq (h : SameOutline d e) (m : Nat) :
    blockKeyword? (d.buffer.lineText m) = blockKeyword? (e.buffer.lineText m) :=
  blockKeyword?_of_afterIndentation (h.afterIndentation_eq m)

/-! ### Continuations and statements -/

/-- The states before a backslash are the same up to offsets, whatever follows it. -/
theorem isCode_before_backslash {above below above' below' : List Text} {i j u r : Text}
    (hd : d.text.rows = above ++ (i ++ u ++ '\\' :: r) :: below)
    (he : e.text.rows = above' ++ (j ++ u ++ '\\' :: r) :: below')
    (ha : above.map Text.afterIndentation = above'.map Text.afterIndentation)
    (hi : Text.IsIndentation i) (hj : Text.IsIndentation j) :
    (d.stateAt (size above.flatten + size (i ++ u))).isCode =
      (e.stateAt (size above'.flatten + size (j ++ u))).isCode := by
  rw [Document.stateAt_of_rows hd, Document.stateAt_of_rows he]
  refine State.isCode_of_shape (Scanner.state_of_shape (shape_read_row hd ha hi hj (.inl ?_)))
  exact SameLook.cons_of_ne (by decide) (by decide) _ _

/-- A row whose body ends in a backslash, and where that backslash stands. -/
theorem row_of_backslash {above below : List Text} {row u : Text}
    (hd : d.text.rows = above ++ row :: below)
    (hb : (Line.ofRow 0 row.afterIndentation).body = u ++ ['\\']) :
    row = row.indentation ++ u ++ '\\' :: (Line.ofRow 0 row.afterIndentation).ending.text ∧
      d.buffer.lineEnd (above.length + 1) - 1 = size above.flatten + size (row.indentation ++ u) := by
  constructor
  · calc
      row = row.indentation ++ row.afterIndentation :=
        (Text.indentation_append_afterIndentation row).symm
      _ = row.indentation ++ (u ++ ['\\'] ++ (Line.ofRow 0 row.afterIndentation).ending.text) := by
        rw [← hb]
        exact congrArg _ (Line.ofRow_row 0 row.afterIndentation).symm
      _ = _ := by simp
  · have hone : Char.utf8Size '\\' = 1 := rfl
    rw [Buffer.lineEnd, Buffer.line_of_rows hd, Line.stop, Line.body_ofRow_eq, hb, Line.ofRow_start]
    simp only [Text.size_append, Text.size_cons, Text.size_nil, hone]
    omega

theorem endsBackslash_eq (h : SameOutline d e) (m : Nat) :
    d.endsBackslash m = e.endsBackslash m := by
  rw [Document.endsBackslash, Document.endsBackslash, ← h.hasLine_eq]
  cases hline : d.buffer.hasLine m with
  | false => rfl
  | true =>
    obtain ⟨hm, hle⟩ := Buffer.hasLine_iff.1 hline
    obtain ⟨above, row, below, above', row', below', hd, he, rfl, ha, hr, -⟩ := h.exists_rows hm hle
    have hlength : above.length = above'.length := by simpa using congrArg List.length ha
    -- both bodies are some indentation followed by the same text
    have htext : d.buffer.lineText (above.length + 1) =
        row.indentation ++ (Line.ofRow 0 row.afterIndentation).body := by
      rw [Buffer.lineText, Buffer.line_of_rows hd, Line.body_ofRow_eq]
    have htext' : e.buffer.lineText (above.length + 1) =
        row'.indentation ++ (Line.ofRow 0 row.afterIndentation).body := by
      rw [hlength, Buffer.lineText, Buffer.line_of_rows he, Line.body_ofRow_eq, hr]
    rw [htext, htext', Text.takeWhile_backslash row.isIndentation_indentation,
      Text.takeWhile_backslash row'.isIndentation_indentation]
    by_cases hodd : ((Line.ofRow 0 row.afterIndentation).body.reverse.takeWhile
        (· == '\\')).length % 2 = 1
    · obtain ⟨u, hu⟩ := Text.exists_backslash hodd
      obtain ⟨hrow, hstop⟩ := row_of_backslash hd hu
      obtain ⟨hrow', hstop'⟩ := row_of_backslash he (hr ▸ hu)
      rw [← hlength] at hstop'
      rw [← hr] at hrow'
      rw [hstop, hstop', isCode_before_backslash (hrow ▸ hd) (hrow' ▸ he) ha
        row.isIndentation_indentation row'.isIndentation_indentation]
    · have hfalse : (((Line.ofRow 0 row.afterIndentation).body.reverse.takeWhile
          (· == '\\')).length % 2 == 1) = false := by
        simpa using hodd
      rw [hfalse, Bool.and_false, Bool.false_and, Bool.false_and]

theorem continuation_eq (h : SameOutline d e) (m : Nat) : d.continuation m = e.continuation m := by
  rw [Document.continuation, Document.continuation, ← h.hasLine_eq]
  by_cases hline : d.buffer.hasLine m = true
  · obtain ⟨hm, hle⟩ := Buffer.hasLine_iff.1 hline
    have hshape := h.shape_after hm hle
    dsimp only
    rw [State.depth_of_shape hshape, State.inString_of_shape hshape, h.endsBackslash_eq]
  · rw [if_neg hline, if_neg hline]

theorem continues_eq (h : SameOutline d e) (m : Nat) : d.continues m = e.continues m := by
  rw [Document.continues, Document.continues, h.continuation_eq]

theorem sameStatements (h : SameOutline d e) : SameStatements d e :=
  ⟨h.lineCount_eq, h.continues_eq, h.isBlankOrComment_eq⟩

theorem statementStart_eq (h : SameOutline d e) (m : Nat) :
    d.statementStart m = e.statementStart m :=
  h.sameStatements.statementStart_eq m

theorem statementEnd_eq (h : SameOutline d e) (m : Nat) : d.statementEnd m = e.statementEnd m :=
  h.sameStatements.statementEnd_eq m

theorem endsWithColon_eq (h : SameOutline d e) {start stop : Nat} (hstart : 1 ≤ start)
    (hle : start ≤ stop) (hstop : stop ≤ d.lineCount) :
    d.endsWithColon start stop = e.endsWithColon start stop := by
  obtain ⟨upper, row, below, hrows, rfl⟩ := Buffer.exists_rows (Nat.le_trans hstart hle) hstop
  obtain ⟨above, mid, rfl, rfl⟩ : ∃ above mid, upper = above ++ mid ∧ start = above.length + 1 := by
    refine ⟨upper.take (start - 1), upper.drop (start - 1), (List.take_append_drop _ _).symm, ?_⟩
    rw [List.length_take]
    omega
  have hd : d.text.rows = above ++ (mid ++ row :: below) := by
    rw [← List.append_assoc]
    exact hrows
  obtain ⟨above', rest, he, ha, hrest⟩ := h.exists_rows_append hd
  rw [List.map_append] at hrest
  obtain ⟨mid', tail, rfl, hmid, htail⟩ := List.map_eq_append_iff.1 hrest.symm
  obtain ⟨row', below', rfl, hrow, hbelow⟩ := List.map_eq_cons_iff.1 htail
  have hlength : above.length = above'.length := by simpa using congrArg List.length ha
  have hlength' : mid.length = mid'.length := by simpa using congrArg List.length hmid.symm
  have hfull := Text.isFullRow_of_rows hrows
  obtain ⟨first, others, hfirst⟩ := List.exists_cons_of_ne_nil (l := mid ++ row :: below) (by simp)
  have hrows' : d.text.rows = above ++ first :: others := by rw [hd, hfirst]
  -- the rows above, then the rows of the lines
  have habove := sameReading_above hrows' ha (mid ++ row :: below).flatten
    (mid' ++ row' :: below').flatten
  have hdepth := State.depth_of_shape (Scanner.state_of_shape habove.1)
  have hlines := Scanner.sameReading_rows_append (Reached.init.read (mid ++ row :: below).flatten)
    (Reached.init.read (mid' ++ row' :: below').flatten) (Document.skip_read_above hrows' _)
    habove.1 hmid.symm (fun r hr => hfull r (List.mem_append_right above hr)) hrow.symm
    (row_end hrows hbelow.symm)
  rw [List.append_nil, List.append_nil] at hlines
  rw [List.length_append, Document.endsWithColon_of_rows hd rfl, hlines.2, hdepth, hlength, hlength',
    ← Document.endsWithColon_of_rows he rfl]

theorem isBlockHeader_eq (h : SameOutline d e) (m : Nat) :
    d.isBlockHeader m = e.isBlockHeader m := by
  have hlo := d.one_le_statementStart m
  have hle := d.statementStart_le_lineCount m
  obtain ⟨hge, hend⟩ := Document.statementEnd_mem hlo hle
  rw [Document.isBlockHeader, Document.isBlockHeader, ← h.statementStart_eq, ← h.blockKeyword?_eq,
    ← h.statementEnd_eq, h.endsWithColon_eq hlo hge hend]

theorem nextCodeLine?_eq (h : SameOutline d e) (m : Nat) :
    d.nextCodeLine? m = e.nextCodeLine? m :=
  h.sameStatements.nextCodeLine?_eq m

end SameOutline

end Offside
