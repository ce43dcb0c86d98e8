import Mathlib.Data.Finset.Card
import Mathlib.Order.Interval.Finset.Nat
import Offside.Proofs.Adjustment
import Offside.Proofs.CodeLines
import Offside.Proofs.Lexical.Literals

/-!
# What reindenting leaves alone

Reindenting gives other indentation to lines that are not blank and start in code.  Nothing else of
the text changes, and no string or comment does.

* `Document.OnlyIndented`: a change to the indentation of certain lines;
* `Document.movedLines`: the lines that differ;
* `Document.exists_reindentLine`, `exists_reindentLines`: one line, and lines one after the other;
* `reindenting_keeps_literals`.
-/

namespace Offside

open Lexical

namespace Document

variable {d e f : Document} {line : Nat}

/-- The text of a line with its terminator. -/
def row (d : Document) (line : Nat) : Text := (d.buffer.line line).row

/-- Whether a line is one that reindenting may move: it is not blank and starts in code. -/
def IsMovable (d : Document) (line : Nat) : Prop :=
  d.buffer.isBlank line = false ∧ (d.lineStartState line).isCode = true

/-- The lines of a document that are different in another one. -/
def movedLines (d e : Document) : Finset Nat :=
  (Finset.Icc 1 d.lineCount).filter fun line => e.row line ≠ d.row line

/-- A change to the indentation of certain lines, after which all strings and comments are the
same. -/
structure OnlyIndented (d e : Document) (touched : Nat → Prop) : Prop where
  lineCount : e.lineCount = d.lineCount
  afterIndentation : ∀ line, 1 ≤ line → line ≤ d.lineCount →
    (e.row line).afterIndentation = (d.row line).afterIndentation
  untouched : ∀ line, 1 ≤ line → line ≤ d.lineCount → ¬ touched line → e.row line = d.row line
  literals : e.text.literals = d.text.literals
  comments : e.text.comments = d.text.comments

namespace OnlyIndented

variable {T U : Nat → Prop}

theorem refl (d : Document) (T : Nat → Prop) : OnlyIndented d d T :=
  ⟨rfl, fun _ _ _ => rfl, fun _ _ _ _ => rfl, rfl, rfl⟩

theorem mono (h : OnlyIndented d e T) (hTU : ∀ line, T line → U line) : OnlyIndented d e U where
  lineCount := h.lineCount
  afterIndentation := h.afterIndentation
  untouched line hlo hhi hU := h.untouched line hlo hhi fun hT => hU (hTU line hT)
  literals := h.literals
  comments := h.comments

theorem trans (h : OnlyIndented d e T) (h' : OnlyIndented e f T) : OnlyIndented d f T where
  lineCount := h'.lineCount.trans h.lineCount
  afterIndentation line hlo hhi :=
    (h'.afterIndentation line hlo (h.lineCount ▸ hhi)).trans (h.afterIndentation line hlo hhi)
  untouched line hlo hhi hT :=
    (h'.untouched line hlo (h.lineCount ▸ hhi) hT).trans (h.untouched line hlo hhi hT)
  literals := h'.literals.trans h.literals
  comments := h'.comments.trans h.comments

end OnlyIndented

/-! ### Lines that differ -/

theorem mem_movedLines :
    line ∈ d.movedLines e ↔ (1 ≤ line ∧ line ≤ d.lineCount) ∧ e.row line ≠ d.row line := by
  simp [movedLines]

theorem movedLines_self (d : Document) : d.movedLines d = ∅ := by
  ext line
  simp [mem_movedLines]

/-- Changes to different lines add up. -/
theorem card_movedLines_trans {T U : Nat → Prop} (h : OnlyIndented d e T) (h' : OnlyIndented e f U)
    (hdisjoint : ∀ line, T line → ¬ U line) :
    (d.movedLines f).card = (d.movedLines e).card + (e.movedLines f).card := by
  have hone : ∀ line, 1 ≤ line → line ≤ d.lineCount →
      e.row line = d.row line ∨ f.row line = e.row line := by
    intro line hlo hhi
    by_cases hT : T line
    · exact .inr (h'.untouched line hlo (h.lineCount ▸ hhi) (hdisjoint line hT))
    · exact .inl (h.untouched line hlo hhi hT)
  have hunion : d.movedLines f = d.movedLines e ∪ e.movedLines f := by
    ext line
    rw [Finset.mem_union, mem_movedLines, mem_movedLines, mem_movedLines, h.lineCount]
    constructor
    · rintro ⟨hline, hne⟩
      by_cases hrow : e.row line = d.row line
      · exact .inr ⟨hline, by rwa [hrow]⟩
      · exact .inl ⟨hline, hrow⟩
    · rintro (⟨hline, hne⟩ | ⟨hline, hne⟩)
      · rw [(hone line hline.1 hline.2).resolve_left hne]
        exact ⟨hline, hne⟩
      · rw [← (hone line hline.1 hline.2).resolve_right hne]
        exact ⟨hline, hne⟩
  rw [hunion, Finset.card_union_of_disjoint]
  rw [Finset.disjoint_left]
  intro line hleft hright
  obtain ⟨hline, hne⟩ := mem_movedLines.1 hleft
  exact (hone line hline.1 hline.2).elim hne (mem_movedLines.1 hright).2

/-- A change to one line counts once, if it is one. -/
theorem card_movedLines_single (hline : 1 ≤ line ∧ line ≤ d.lineCount)
    (h : OnlyIndented d e (· = line)) :
    (d.movedLines e).card = (decide (e.row line ≠ d.row line)).toNat := by
  by_cases hrow : e.row line = d.row line
  · have hnone : d.movedLines e = ∅ := by
      ext l
      simp only [mem_movedLines, Finset.notMem_empty, iff_false, not_and, not_not]
      intro hl
      by_cases hll : l = line
      · rw [hll, hrow]
      · exact h.untouched l hl.1 hl.2 hll
    simp [hnone, hrow]
  · have hsingle : d.movedLines e = {line} := by
      ext l
      rw [mem_movedLines, Finset.mem_singleton]
      constructor
      · rintro ⟨hl, hne⟩
        by_contra hll
        exact hne (h.untouched l hl.1 hl.2 hll)
      · rintro rfl
        exact ⟨hline, hrow⟩
    simp [hsingle, hrow]

/-! ### One line -/

section Rows

variable {above below : List Text} {r r' : Text}

theorem row_of_rows (h : d.text.rows = above ++ r :: below) : d.row (above.length + 1) = r := by
  rw [row, Buffer.line_of_rows h, Line.ofRow_row]

/-- The row of a line that exists. -/
theorem getElem?_rows (hlo : 1 ≤ line) (hhi : line ≤ d.lineCount) :
    d.text.rows[line - 1]? = some (d.row line) := by
  obtain ⟨above, r, below, h, rfl⟩ := Buffer.exists_rows hlo hhi
  rw [row_of_rows h, show d.text.rows = _ from h]
  simp

/-- Other rows stay where they are. -/
theorem row_of_ne (hd : d.text.rows = above ++ r :: below) (he : e.text.rows = above ++ r' :: below)
    (hcount : e.lineCount = d.lineCount) (hlo : 1 ≤ line) (hhi : line ≤ d.lineCount)
    (hne : line ≠ above.length + 1) : e.row line = d.row line := by
  have hrows : e.text.rows[line - 1]? = d.text.rows[line - 1]? := by
    have hset : e.text.rows = d.text.rows.set above.length r' := by
      rw [hd, he]
      simp
    rw [hset, List.getElem?_set_ne (by omega)]
  rw [getElem?_rows hlo hhi, getElem?_rows hlo (hcount ▸ hhi)] at hrows
  exact Option.some.inj hrows

/-- Another indentation of a line that starts in code. -/
theorem onlyIndented_of_rows {i : Text} (hi : Text.IsIndentation i)
    (hd : d.text.rows = above ++ r :: below)
    (he : e.text.rows = above ++ (i ++ r.afterIndentation) :: below)
    (hcode : (d.lineStartState (above.length + 1)).isCode = true) :
    OnlyIndented d e (· = above.length + 1) := by
  have hcount : e.lineCount = d.lineCount :=
    (sameOutline_setIndentation hi hd he).lineCount_eq.symm
  have hends := Text.endsLine_flatten (Text.isFullRow_of_rows hd)
  have hclosed : ∀ k ∈ lex above.flatten, k.closed = true := by
    rw [lineStartState_of_rows hd] at hcode
    exact closed_of_zone hends (by simpa [State.isCode] using hcode)
  have hetext : e.text = above.flatten ++ (i ++ (r.afterIndentation ++ below.flatten)) := by
    rw [Text.eq_flatten_of_rows he, List.append_assoc]
  refine ⟨hcount, fun line hlo hhi => ?_,
    fun line hlo hhi hne => row_of_ne hd he hcount hlo hhi hne, ?_, ?_⟩
  · by_cases hline : line = above.length + 1
    · rw [hline, row_of_rows hd, row_of_rows he, Text.afterIndentation_append hi,
        Text.afterIndentation_afterIndentation]
    · rw [row_of_ne hd he hcount hlo hhi hline]
  · rw [text_of_rows hd, hetext, literals_indent hends hclosed hi,
      literals_indent hends hclosed r.isIndentation_indentation]
  · rw [text_of_rows hd, hetext, comments_indent hends hclosed hi,
      comments_indent hends hclosed r.isIndentation_indentation]

end Rows

/-- What an operation on a line makes of a document if it moves no other line. -/
structure MovesLine (d e : Document) (line : Nat) (moved : Bool) : Prop where
  outline : SameOutline d e
  onlyIndented : OnlyIndented d e fun l => l = line ∧ d.IsMovable l
  moved_eq : (d.movedLines e).card = moved.toNat

theorem MovesLine.refl (d : Document) (line : Nat) : MovesLine d d line false :=
  ⟨.refl d, .refl d _, by rw [movedLines_self]; rfl⟩

/-- Setting the indentation of a line that is not blank and starts in code. -/
theorem exists_setIndentation_movable (hline : 1 ≤ line ∧ line ≤ d.lineCount) (h : d.IsMovable line)
    (column : Nat) :
    ∃ moved e, d.setIndentation line column = .ok (moved, e) ∧ MovesLine d e line moved := by
  obtain ⟨above, r, below, hd, rfl⟩ := Buffer.exists_rows hline.1 hline.2
  obtain ⟨e, hset, he, -⟩ := setIndentation_of_rows hd column
  have hi := d.isIndentation_written column
  have honly := onlyIndented_of_rows hi hd he h.2
  have hmoved : decide (r.indentation ≠ d.written column) =
      decide (e.row (above.length + 1) ≠ d.row (above.length + 1)) := by
    rw [row_of_rows hd, row_of_rows he, decide_eq_decide, ne_eq, ne_eq,
      Text.append_afterIndentation_eq_iff]
  refine ⟨_, e, hset, sameOutline_setIndentation hi hd he, honly.mono ?_, ?_⟩
  · rintro l rfl
    exact ⟨rfl, h⟩
  · rw [card_movedLines_single hline honly, hmoved]

/-- A line starts in code or in a string. -/
theorem isCode_of_not_inString (h : (d.lineStartState line).inString = false) :
    (d.lineStartState line).isCode = true := by
  cases hz : (d.lineStartState line).zone with
  | code => simp [State.isCode, hz]
  | string o => simp [State.inString, State.string?, hz] at h
  | comment n => exact absurd hz (d.zone_lineStart_ne_comment line n)

/-- Reindenting a line moves this line only, and only if it is not blank and starts in code. -/
theorem exists_reindentLine (hline : 1 ≤ line ∧ line ≤ d.lineCount) :
    ∃ moved e, d.reindentLine line = .ok (moved, e) ∧ MovesLine d e line moved := by
  rw [reindentLine]
  split
  · exact ⟨false, d, rfl, .refl d line⟩
  · next h =>
    have hmovable : d.buffer.isBlank line = false ∧ (d.lineStartState line).inString = false := by
      simpa using h
    exact exists_setIndentation_movable hline
      ⟨hmovable.1, isCode_of_not_inString hmovable.2⟩ _

/-! ### Line by line -/

theorem isMovable_iff (h : SameOutline d e) : d.IsMovable line ↔ e.IsMovable line := by
  rw [IsMovable, IsMovable, h.isBlank_eq, State.isCode_of_shape (h.shape_lineStart line)]

/-- Reindenting lines one after the other moves only such lines of them, and counts the moved ones.
-/
theorem exists_reindentLines {lines : List Nat} (hnodup : lines.Nodup)
    (hlines : ∀ l ∈ lines, 1 ≤ l ∧ l ≤ d.lineCount) :
    ∃ n e, d.reindentLines lines = .ok (n, e) ∧
      OnlyIndented d e (fun l => l ∈ lines ∧ d.IsMovable l) ∧ (d.movedLines e).card = n := by
  induction lines generalizing d with
  | nil => exact ⟨0, d, rfl, .refl d _, by rw [movedLines_self]; rfl⟩
  | cons line rest ih =>
    obtain ⟨hnew, hrest⟩ := List.nodup_cons.1 hnodup
    obtain ⟨moved, e, hfirst, hline⟩ := exists_reindentLine (hlines line List.mem_cons_self)
    have hlines' : ∀ l ∈ rest, 1 ≤ l ∧ l ≤ e.lineCount := by
      intro l hl
      rw [← hline.outline.lineCount_eq]
      exact hlines l (List.mem_cons_of_mem line hl)
    obtain ⟨n, f, hlast, honly, hcard⟩ := ih hrest hlines'
    refine ⟨if moved then n + 1 else n, f, ?_, ?_, ?_⟩
    · rw [reindentLines, hfirst]
      show (e.reindentLines rest >>= fun r => pure (if moved then r.1 + 1 else r.1, r.2)) = _
      rw [hlast]
      rfl
    · refine (hline.onlyIndented.mono ?_).trans (honly.mono ?_)
      · rintro l ⟨rfl, hmovable⟩
        exact ⟨List.mem_cons_self, hmovable⟩
      · rintro l ⟨hl, hmovable⟩
        exact ⟨List.mem_cons_of_mem line hl, (isMovable_iff hline.outline).2 hmovable⟩
    · -- no line is moved twice
      rw [card_movedLines_trans hline.onlyIndented honly, hline.moved_eq, hcard]
      · cases moved <;> simp [Nat.add_comm]
      · rintro l ⟨rfl, -⟩ ⟨hl, -⟩
        exact hnew hl

/-! ### Dedent keywords -/

/-- A line with a dedent keyword is not blank and starts in code. -/
theorem isMovable_of_dedentKeyword? {k : DedentKeyword} (hline : 1 ≤ line ∧ line ≤ d.lineCount)
    (h : d.dedentKeyword? line = some k) : d.IsMovable line := by
  rw [dedentKeyword?] at h
  split at h
  · next hstart =>
    constructor
    · -- the keyword is there after white space
      by_contra hblank
      have hnil : (d.buffer.lineText line).trimStart = [] :=
        (Text.isBlank_iff_trimStart _).1 (by simpa [Buffer.isBlank] using hblank)
      have hword := List.find?_some h
      rw [hnil] at hword
      cases k <;> exact absurd hword (by decide)
    · have hself : d.statementStart line = line := by simpa using (Bool.and_eq_true_iff.1 hstart).2
      rw [statementStart_of_hasLine hline.1 hline.2, startFrom_eq_self_iff hline.1] at hself
      rw [lineStartState_of_not_continues hline.1 hline.2 hself]
      rfl
  · cases h

/-- Electric dedent moves its line only, and only if it is not blank and starts in code. -/
theorem exists_electricDedent (hline : 1 ≤ line ∧ line ≤ d.lineCount) :
    ∃ moved e, d.electricDedent line = .ok (moved, e) ∧ MovesLine d e line moved := by
  rcases electricDedent_cases hline with ⟨-, h⟩ | ⟨header, hmatch, h⟩
  · exact ⟨false, d, h, .refl d line⟩
  · rw [h]
    refine exists_setIndentation_movable hline ?_ _
    cases hk : d.dedentKeyword? line with
    | none =>
      rw [electricMatch?, hk] at hmatch
      cases hmatch
    | some k => exact isMovable_of_dedentKeyword? hline hk

end Document

/-- **Reindenting never touches strings or comments.**  Reindenting a region of existing lines
succeeds.  It changes the indentation of lines of the region that are not blank and start in code,
and leaves all other lines, and the rest of these with its terminator, as they are; the strings and
the comments of the text are the same before and after.  The number that it gives is that of the
lines which are different.  The same holds of electric dedent, with the one line as region. -/
theorem reindenting_keeps_literals (d : Document) :
    (∀ start stop, 1 ≤ start → start ≤ stop → stop ≤ d.lineCount →
      ∃ n d', d.reindent start stop = .ok (n, d') ∧
        d.OnlyIndented d' (fun line => (start ≤ line ∧ line ≤ stop) ∧ d.IsMovable line) ∧
        (d.movedLines d').card = n) ∧
    ∀ line, 1 ≤ line → line ≤ d.lineCount →
      ∃ moved d', d.electricDedent line = .ok (moved, d') ∧
        d.OnlyIndented d' (fun l => l = line ∧ d.IsMovable l) ∧
        (d.movedLines d').card = moved.toNat := by
  constructor
  · intro start stop hstart hle hstop
    have hmem : ∀ l ∈ List.range' start (stop + 1 - start), start ≤ l ∧ l ≤ stop := by
      intro l hl
      have := List.mem_range'_1.1 hl
      omega
    obtain ⟨n, d', hlines, honly, hcard⟩ := Document.exists_reindentLines (d := d) List.nodup_range'
      fun l hl => ⟨hstart.trans (hmem l hl).1, (hmem l hl).2.trans hstop⟩
    refine ⟨n, d', ?_, honly.mono fun l hl => ⟨hmem l hl.1, hl.2⟩, hcard⟩
    rw [Document.reindent_of_checkRegion (Document.checkRegion_of_le hstart hle hstop), hlines]
  · intro line hlo hhi
    obtain ⟨moved, d', hdedent, h⟩ := Document.exists_electricDedent ⟨hlo, hhi⟩
    exact ⟨moved, d', hdedent, h.onlyIndented, h.moved_eq⟩

end Offside
