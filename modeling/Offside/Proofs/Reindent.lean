import Offside.Proofs.Agreement.Report
import Offside.Proofs.Outline
import Offside.Proofs.SetIndentation

/-!
# Reindenting reaches a fixpoint

Lines are reindented from top to bottom, each by what then stands above it.  The column of a line
does not depend on its own indentation or on what is below, and a changed indentation leaves the
outline of the text as it was.  So a line that has its column keeps it, and a second pass finds
nothing to do.

* `Document.IsSettled`: a line that reindenting leaves as it is;
* `Document.reindentLine_of_rows`: reindenting a line settles it;
* `Document.Reindented`, `reindentLines_range'`: reindenting lines from top to bottom settles them;
* `reindent_fixpoint`: the columns of all lines after reindenting a region.
-/

namespace Offside

open Lexical
open Text (size)

namespace Document

variable {d e : Document} {line m : Nat}

/-! ### Settled lines -/

/-- Whether reindenting leaves a line as it is: the line is not touched, or its indentation is the
one that is written for its column. -/
def IsSettled (d : Document) (line : Nat) : Prop :=
  d.buffer.isBlank line = true ∨ (d.lineStartState line).inString = true ∨
    (d.buffer.lineText line).indentation = d.written (d.targetColumn line)

/-- The indentation of a line, read off its row. -/
theorem lineText_indentation {above below : List Text} {row : Text}
    (h : d.text.rows = above ++ row :: below) :
    (d.buffer.lineText (above.length + 1)).indentation = row.indentation := by
  rw [Buffer.lineText, Buffer.line_of_rows h, Line.indentation_body_ofRow]

theorem reindentLine_of_isSettled (hline : 1 ≤ line) (hle : line ≤ d.lineCount)
    (h : d.IsSettled line) : d.reindentLine line = .ok (false, d) := by
  rw [reindentLine]
  split
  · rfl
  · next hcond =>
    have hcond' : ¬ (d.buffer.isBlank line = true ∨ (d.lineStartState line).inString = true) := by
      simpa using hcond
    obtain ⟨above, row, below, hrows, rfl⟩ := Buffer.exists_rows hline hle
    have hind := (h.resolve_left fun hb => hcond' (.inl hb)).resolve_left fun hs => hcond' (.inr hs)
    rw [lineText_indentation hrows] at hind
    obtain ⟨d', hset, -, -, hsame, -⟩ :=
      setIndentation_of_rows hrows (d.targetColumn (above.length + 1))
    obtain rfl := hsame hind
    rw [hset, decide_eq_false (not_not_intro hind)]

/-- A pass over settled lines changes nothing. -/
theorem reindentLines_of_isSettled {lines : List Nat}
    (h : ∀ l ∈ lines, 1 ≤ l ∧ l ≤ d.lineCount ∧ d.IsSettled l) :
    d.reindentLines lines = .ok (0, d) := by
  induction lines with
  | nil => rfl
  | cons l ls ih =>
    obtain ⟨hlo, hhi, hl⟩ := h l List.mem_cons_self
    have hls := ih fun k hk => h k (List.mem_cons_of_mem l hk)
    rw [reindentLines, reindentLine_of_isSettled hlo hhi hl]
    show (d.reindentLines ls >>= fun r => pure (if false then r.1 + 1 else r.1, r.2)) = _
    rw [hls]
    rfl

end Document

/-! ### The column of a settled line -/

namespace AgreeAbove

variable {d e : Document} {line : Nat}

theorem self (hline : 1 ≤ line) (hle : line ≤ d.lineCount) : AgreeAbove d d line :=
  ⟨hline, hle, hle, rfl, rfl⟩

theorem computedIndentation_eq (h : AgreeAbove d e line) (hs : d.settings = e.settings)
    (htrim : (d.buffer.lineText line).trimStart = (e.buffer.lineText line).trimStart) :
    d.computedIndentation line = e.computedIndentation line := by
  rw [Document.computedIndentation, Document.computedIndentation, h.report_eq hs htrim]

/-- The column that reindenting gives to a line, but for the line's own indentation, which counts
after the end of a block. -/
theorem targetColumn_eq_ite (h : AgreeAbove d e line) (hs : d.settings = e.settings)
    (htrim : (d.buffer.lineText line).trimStart = (e.buffer.lineText line).trimStart) :
    d.targetColumn line =
      if e.followsBlockEnder line (e.status line) then
        min (d.buffer.indentation line) (e.computedIndentation line)
      else e.computedIndentation line := by
  have hclamp := h.symm.clampLine_left h.one_le (Nat.le_refl _)
  have hstatus : (e.report line).status = e.status line := by rw [Document.report, hclamp]
  have hends := h.followsBlockEnder_eq hs htrim
  rw [h.status_eq] at hends
  rw [Document.targetColumn, h.report_eq hs htrim, hstatus, hends, Document.computedIndentation]

/-- A line whose text and surroundings above are the same stays settled. -/
theorem isSettled (h : AgreeAbove d e line) (hs : d.settings = e.settings)
    (hline : d.buffer.line line = e.buffer.line line) (hd : d.IsSettled line) :
    e.IsSettled line := by
  have htext : d.buffer.lineText line = e.buffer.lineText line := by
    rw [Buffer.lineText, Buffer.lineText, hline]
  have hind : d.buffer.indentation line = e.buffer.indentation line := by
    rw [Buffer.indentation, Buffer.indentation, hline, h.tabWidth]
  have htarget : d.targetColumn line = e.targetColumn line := by
    rw [h.targetColumn_eq_ite hs (by rw [htext]),
      (self h.one_le h.le_right).targetColumn_eq_ite rfl rfl, hind]
  rcases hd with hblank | hstring | hcolumn
  · exact .inl (by rw [Buffer.isBlank, ← htext]; exact hblank)
  · exact .inr (.inl (by rw [← h.lineStartState_eq]; exact hstring))
  · refine .inr (.inr ?_)
    rw [← htext, ← htarget, hcolumn, Document.written, Document.written, hs]

end AgreeAbove

namespace Document

variable {d d' e : Document} {line m : Nat}

theorem tabWidth_of_settings (h : d.settings = e.settings) :
    d.buffer.tabWidth = e.buffer.tabWidth := by
  rw [d.tabWidth_eq, e.tabWidth_eq, h]

/-! ### One line -/

/-- What reindenting makes of a line: it is settled, and after the end of a block it is not moved to
the right. -/
structure LineReindented (d d' : Document) (line : Nat) : Prop where
  settled : d'.IsSettled line
  ender : d'.buffer.isBlank line = false → (d'.lineStartState line).inString = false →
    d'.followsBlockEnder line (d'.status line) = true →
    d'.buffer.indentation line = min (d.buffer.indentation line) (d'.computedIndentation line)

/-- Setting a line to its target column settles it. -/
theorem lineReindented_of_rows {above below : List Text} {row : Text}
    (h : d.text.rows = above ++ row :: below) (hs : d'.settings = d.settings)
    (h' : d'.text.rows = above ++
      (d.written (d.targetColumn (above.length + 1)) ++ row.afterIndentation) :: below) :
    LineReindented d d' (above.length + 1) := by
  have hagree := AgreeAbove.of_rows h h' (tabWidth_of_settings hs.symm)
  have htrim : (d.buffer.lineText (above.length + 1)).trimStart =
      (d'.buffer.lineText (above.length + 1)).trimStart := by
    refine Text.trimStart_of_afterIndentation ?_
    rw [Buffer.lineText, Buffer.lineText, Buffer.line_of_rows h, Buffer.line_of_rows h',
      Line.afterIndentation_body_ofRow, Line.afterIndentation_body_ofRow,
      Text.afterIndentation_append (d.isIndentation_written _),
      Text.afterIndentation_afterIndentation]
  have hcolumn := hagree.targetColumn_eq_ite hs.symm htrim
  have hindentation := indentation_written h' hs
  constructor
  · -- the new indentation is the target column, so the minimum with it changes nothing
    have htarget : d'.targetColumn (above.length + 1) = d.targetColumn (above.length + 1) := by
      rw [(AgreeAbove.self hagree.one_le hagree.le_right).targetColumn_eq_ite rfl rfl, hindentation]
      split
      · next hends =>
        rw [if_pos hends] at hcolumn
        omega
      · next hends =>
        rw [if_neg hends] at hcolumn
        exact hcolumn.symm
    refine .inr (.inr ?_)
    rw [lineText_indentation h', Text.indentation_append (d.isIndentation_written _),
      Text.indentation_afterIndentation, List.append_nil, htarget, written, written, hs]
  · intro _ _ hends
    rw [hindentation, hcolumn, if_pos hends]

/-- Reindenting a line settles it and leaves all others alone. -/
theorem reindentLine_of_rows {above below : List Text} {row : Text}
    (h : d.text.rows = above ++ row :: below) :
    ∃ changed d' row', d.reindentLine (above.length + 1) = .ok (changed, d') ∧
      d'.text.rows = above ++ row' :: below ∧ row'.afterIndentation = row.afterIndentation ∧
      d'.settings = d.settings ∧ LineReindented d d' (above.length + 1) ∧
      d.revision ≤ d'.revision ∧ (d'.revision = d.revision → d' = d) := by
  rw [reindentLine]
  split
  · next hcond =>
    have hcond' : d.buffer.isBlank (above.length + 1) = true ∨
        (d.lineStartState (above.length + 1)).inString = true := by simpa using hcond
    refine ⟨false, d, row, rfl, h, rfl, rfl, ⟨?_, ?_⟩, Nat.le_refl _, fun _ => rfl⟩
    · exact hcond'.elim .inl fun hs => .inr (.inl hs)
    · intro hblank hstring
      rw [hblank, hstring] at hcond'
      simp at hcond'
  · -- the line is touched: its new indentation is the one of its target column
    obtain ⟨d', hset, hrows, hs, hsame, hrevision⟩ :=
      setIndentation_of_rows h (d.targetColumn (above.length + 1))
    refine ⟨_, d', _, hset, hrows, ?_, hs, lineReindented_of_rows h hs hrows, ?_⟩
    · rw [Text.afterIndentation_append (d.isIndentation_written _),
        Text.afterIndentation_afterIndentation]
    · by_cases hw : row.indentation = d.written (d.targetColumn (above.length + 1))
      · obtain rfl := hsame hw
        exact ⟨Nat.le_refl _, fun _ => rfl⟩
      · have := hrevision hw
        exact ⟨by omega, fun h => by omega⟩

/-! ### From top to bottom -/

/-- What reindenting makes of a document: the settings, the outline and all rows above stay, the
lines are reindented, and the revision tells whether anything has changed. -/
structure Reindented (d d' : Document) (start count : Nat) : Prop where
  settings : d'.settings = d.settings
  outline : SameOutline d d'
  above : d'.text.rows.take (start - 1) = d.text.rows.take (start - 1)
  lines : ∀ line, start ≤ line → line < start + count → LineReindented d d' line
  revision_le : d.revision ≤ d'.revision
  unchanged : d'.revision = d.revision → d' = d

theorem Reindented.nil (d : Document) (start : Nat) : Reindented d d start 0 where
  settings := rfl
  outline := .refl d
  above := rfl
  lines := fun line hlo hhi => by omega
  revision_le := Nat.le_refl _
  unchanged := fun _ => rfl

theorem Reindented.take_above {n count : Nat} (h : Reindented d d' (n + 2) count) :
    d'.text.rows.take n = d.text.rows.take n := by
  have hmin : min n (n + 2 - 1) = n := by omega
  have htake := congrArg (List.take n) h.above
  rwa [List.take_take, List.take_take, hmin] at htake

/-- Lines up to one with the same rows are the same. -/
theorem line_eq_of_take (h : e.text.rows.take line = d.text.rows.take line) (hline : 1 ≤ line)
    (hd : line ≤ d.lineCount) (he : line ≤ e.lineCount) :
    d.buffer.line line = e.buffer.line line := by
  obtain ⟨above, row, below, hrows, rfl⟩ := Buffer.exists_rows hline hd
  obtain ⟨above', row', below', hrows', hlength⟩ := Buffer.exists_rows hline he
  rw [show d.text.rows = _ from hrows, show e.text.rows = _ from hrows', List.take_length_add_append,
    hlength, List.take_length_add_append] at h
  obtain ⟨rfl, hrow⟩ := List.append_inj' h rfl
  obtain rfl : row' = row := by simpa using hrow
  rw [Buffer.line_of_rows hrows, Buffer.line_of_rows hrows']

/-- Lines below a changed row keep their indentation. -/
theorem indentation_below {above below : List Text} {row row' : Text}
    (hd : d.text.rows = above ++ row :: below) (he : e.text.rows = above ++ row' :: below)
    (ht : d.buffer.tabWidth = e.buffer.tabWidth) (hlt : above.length + 1 < line)
    (hle : line ≤ d.lineCount) : d.buffer.indentation line = e.buffer.indentation line := by
  obtain ⟨upper, r, between, r', lower, hrows, hm, rfl⟩ :=
    Buffer.exists_rows_of_lt (b := d.buffer) (by omega) hlt hle
  obtain ⟨rfl, hcons⟩ := List.append_inj (hd.symm.trans hrows) (by omega)
  obtain ⟨rfl, rfl⟩ := List.cons_eq_cons.1 hcons
  have hd' : d.text.rows = (above ++ row :: between) ++ r' :: lower := by simpa using hd
  have he' : e.text.rows = (above ++ row' :: between) ++ r' :: lower := by simpa using he
  have hlength : (above ++ row' :: between).length = (above ++ row :: between).length := by simp
  rw [Buffer.indentation_of_rows hd', ← hlength, Buffer.indentation_of_rows he', ht]

/-- A line that is reindented stays so when only lines below it change. -/
theorem LineReindented.of_agreeAbove (h : LineReindented d e line) (ha : AgreeAbove e d' line)
    (hs : e.settings = d'.settings) (hline : e.buffer.line line = d'.buffer.line line) :
    LineReindented d d' line := by
  have htext : e.buffer.lineText line = d'.buffer.lineText line := by
    rw [Buffer.lineText, Buffer.lineText, hline]
  have hends := ha.followsBlockEnder_eq hs (by rw [htext])
  rw [ha.status_eq] at hends
  refine ⟨ha.isSettled hs hline h.settled, fun hblank hstring hender => ?_⟩
  have hcolumn := h.ender (by rw [Buffer.isBlank, htext]; exact hblank)
    (by rw [ha.lineStartState_eq]; exact hstring) (by rw [ha.status_eq, hends, hender])
  rw [ha.computedIndentation_eq hs (by rw [htext]), Buffer.indentation, hline, ha.tabWidth] at hcolumn
  exact hcolumn

/-- Reindenting one line and then the lines below it. -/
theorem Reindented.cons {above below : List Text} {row row' : Text} {count : Nat}
    (hd : d.text.rows = above ++ row :: below) (he : e.text.rows = above ++ row' :: below)
    (hrow : row'.afterIndentation = row.afterIndentation) (hs : e.settings = d.settings)
    (hline : LineReindented d e (above.length + 1)) (hle : d.revision ≤ e.revision)
    (hsame : e.revision = d.revision → e = d)
    (h : Reindented e d' (above.length + 2) count) (hcount : above.length + 1 + count ≤ d.lineCount) :
    Reindented d d' (above.length + 1) (count + 1) where
  settings := h.settings.trans hs
  outline := by
    have hfirst : SameOutline d e := by
      rw [SameOutline, Text.outline, Text.outline, hd, he, List.map_append, List.map_append,
        List.map_cons, List.map_cons, hrow]
    exact hfirst.trans h.outline
  above := by
    rw [Nat.add_sub_cancel, h.take_above, he, hd, List.take_left, List.take_left]
  lines := by
    intro line hlo hhi
    have hlength := Buffer.length_le_lineCount (b := e.buffer) he
    have hlength' : above.length + 1 ≤ d'.lineCount := by rw [← h.outline.lineCount_eq]; exact hlength
    by_cases hfirst : line = above.length + 1
    · -- the lines below do not count for the first one
      subst hfirst
      have hagree : AgreeAbove e d' (above.length + 1) :=
        ⟨by omega, hlength, hlength', h.take_above.symm, tabWidth_of_settings h.settings.symm⟩
      exact hline.of_agreeAbove hagree h.settings.symm
        (line_eq_of_take h.above (by omega) hlength hlength')
    · -- the other lines have not been touched by the first step
      have hbelow := h.lines line (by omega) (by omega)
      refine ⟨hbelow.settled, ?_⟩
      rw [indentation_below hd he (tabWidth_of_settings hs.symm) (by omega) (by omega)]
      exact hbelow.ender
  revision_le := Nat.le_trans hle h.revision_le
  unchanged := by
    intro hrevision
    have hle' := h.revision_le
    obtain rfl := h.unchanged (by omega)
    exact hsame hrevision

/-- Lines are reindented from top to bottom without fail. -/
theorem reindentLines_range' {start count : Nat} (hstart : 1 ≤ start)
    (hcount : start + count ≤ d.lineCount + 1) :
    ∃ n d', d.reindentLines (List.range' start count) = .ok (n, d') ∧
      Reindented d d' start count := by
  induction count generalizing d start with
  | zero => exact ⟨0, d, rfl, .nil d start⟩
  | succ count ih =>
    obtain ⟨above, row, below, hd, rfl⟩ :=
      Buffer.exists_rows (b := d.buffer) hstart (show start ≤ d.lineCount by omega)
    obtain ⟨changed, e, row', hstep, he, hrow, hs, hline, hle, hsame⟩ := reindentLine_of_rows hd
    have hcount' : e.lineCount = d.lineCount := by
      have hrows := congrArg List.length he
      have hrows' := congrArg List.length (show d.text.rows = _ from hd)
      rw [lineCount, lineCount, Buffer.lineCount_eq, Buffer.lineCount_eq]
      simp only [List.length_append, List.length_cons] at hrows hrows'
      exact hrows.trans hrows'.symm
    obtain ⟨n, d', hrest, hreindented⟩ := ih (d := e) (show 1 ≤ above.length + 2 by omega) (by omega)
    refine ⟨if changed then n + 1 else n, d', ?_,
      .cons hd he hrow hs hline hle hsame hreindented (by omega)⟩
    rw [List.range'_succ, reindentLines, hstep]
    show (e.reindentLines (List.range' (above.length + 2) count) >>= fun r =>
      pure (if changed then r.1 + 1 else r.1, r.2)) = _
    rw [hrest]
    rfl

/-! ### Regions -/

theorem checkRegion_of_le {start stop : Nat} (hstart : 1 ≤ start) (hle : start ≤ stop)
    (hstop : stop ≤ d.lineCount) : d.checkRegion start stop = .ok () := by
  have hfirst : d.buffer.hasLine start = true :=
    Buffer.hasLine_iff.2 ⟨hstart, Nat.le_trans hle hstop⟩
  have hlast : d.buffer.hasLine stop = true := Buffer.hasLine_iff.2 ⟨by omega, hstop⟩
  rw [checkRegion, if_neg (by omega), checkLine, checkLine, if_pos hfirst, if_pos hlast]
  rfl

/-- Reindenting a region of existing lines never fails. -/
theorem reindent_of_le {start stop : Nat} (hstart : 1 ≤ start) (hle : start ≤ stop)
    (hstop : stop ≤ d.lineCount) :
    ∃ n d', d.reindent start stop = .ok (n, d') ∧ Reindented d d' start (stop + 1 - start) := by
  obtain ⟨n, d', hlines, h⟩ :=
    reindentLines_range' (d := d) hstart
      (show start + (stop + 1 - start) ≤ d.lineCount + 1 by omega)
  refine ⟨n, d', ?_, h⟩
  rw [reindent, checkRegion_of_le hstart hle hstop]
  exact hlines

/-- Reindenting a region of settled lines changes nothing. -/
theorem reindent_of_isSettled {start stop : Nat} (hstart : 1 ≤ start) (hle : start ≤ stop)
    (hstop : stop ≤ d.lineCount) (h : ∀ line, start ≤ line → line ≤ stop → d.IsSettled line) :
    d.reindent start stop = .ok (0, d) := by
  have hlines : d.reindentLines (List.range' start (stop + 1 - start)) = .ok (0, d) := by
    refine reindentLines_of_isSettled fun line hline => ?_
    obtain ⟨hlo, hhi⟩ := List.mem_range'_1.1 hline
    exact ⟨by omega, by omega, h line hlo (by omega)⟩
  rw [reindent, checkRegion_of_le hstart hle hstop]
  exact hlines

/-- The indentation of a settled line that is neither blank nor in a string is its target column. -/
theorem IsSettled.indentation_eq (h : d.IsSettled line) (hline : 1 ≤ line) (hle : line ≤ d.lineCount)
    (hblank : d.buffer.isBlank line = false) (hstring : (d.lineStartState line).inString = false) :
    d.buffer.indentation line =
      if d.followsBlockEnder line (d.status line) then
        min (d.buffer.indentation line) (d.computedIndentation line)
      else d.computedIndentation line := by
  rcases h with h | h | h
  · rw [hblank] at h
    cases h
  · rw [hstring] at h
    cases h
  · have hwidth := congrArg (Text.displayWidth d.buffer.tabWidth) h
    rw [displayWidth_written, (AgreeAbove.self hline hle).targetColumn_eq_ite rfl rfl] at hwidth
    exact hwidth

end Document

/-- **Reindenting reaches a fixpoint in one pass.**  Reindenting a region of existing lines
succeeds.  After it every line of the region that is neither blank nor starts in a string has the
indentation that is computed for it in the new document, except that a line after the end of a block
which starts with no dedent keyword has the smaller of that column and its indentation before.  The
same lines are blank and start in strings as before, and reindenting the region again changes
nothing. -/
theorem reindent_fixpoint (d : Document) {start stop : Nat} (hstart : 1 ≤ start)
    (hle : start ≤ stop) (hstop : stop ≤ d.lineCount) :
    ∃ n d', d.reindent start stop = .ok (n, d') ∧
      (∀ line, start ≤ line → line ≤ stop →
        d'.buffer.isBlank line = d.buffer.isBlank line ∧
        (d'.lineStartState line).inString = (d.lineStartState line).inString ∧
        (d'.buffer.isBlank line = false → (d'.lineStartState line).inString = false →
          d'.buffer.indentation line =
            if d'.followsBlockEnder line (d'.status line) then
              min (d.buffer.indentation line) (d'.computedIndentation line)
            else d'.computedIndentation line)) ∧
      d'.reindent start stop = .ok (0, d') := by
  obtain ⟨n, d', hreindent, h⟩ := Document.reindent_of_le hstart hle hstop
  have hcount : d'.lineCount = d.lineCount := h.outline.lineCount_eq.symm
  refine ⟨n, d', hreindent, ?_, ?_⟩
  · intro line hlo hhi
    have hline := h.lines line hlo (by omega)
    refine ⟨(h.outline.isBlank_eq line).symm, (h.outline.inString_eq line).symm, ?_⟩
    intro hblank hstring
    have hcolumn := hline.settled.indentation_eq (by omega) (by omega) hblank hstring
    split
    · next hends => exact hline.ender hblank hstring hends
    · next hends => rwa [if_neg hends] at hcolumn
  · refine Document.reindent_of_isSettled hstart hle (by omega) fun line hlo hhi => ?_
    exact (h.lines line hlo (by omega)).settled

/-- A header, its body, and a line after the end of the block that stands further left. -/
theorem reindent_fixpoint_after_return :
    3 ≤ (Document.ofText ("if a:\n return\nb".toList)).lineCount ∧
    ∃ n d', (Document.ofText ("if a:\n return\nb".toList)).reindent 1 3 = .ok (n, d') ∧
      d'.reindent 1 3 = .ok (0, d') := by
  have hstop : 3 ≤ (Document.ofText ("if a:\n return\nb".toList)).lineCount := by decide
  obtain ⟨n, d', hfirst, -, hsecond⟩ := reindent_fixpoint
    (Document.ofText ("if a:\n return\nb".toList)) (Nat.le_refl 1) (by decide) hstop
  exact ⟨hstop, n, d', hfirst, hsecond⟩

end Offside
