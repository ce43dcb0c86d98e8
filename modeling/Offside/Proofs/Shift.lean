import Offside.Proofs.Adjustment
import Offside.Proofs.Enclosing
import Mathlib.Data.List.Find

/-!
# Moving a whole document to the right

Searches over statements compare columns with each other, and some of them stop early at column
zero. When all code is moved to the right by the same amount, the columns compare as before.  A
search that stopped early has nothing left to find: no code stands further left than what was at
column zero.

* `Shifted`: the same statements at columns that are larger by a number;
* `Document.dedentHeader?`, `electricHeader?`: the lines that dedent keywords are matched with;
* `Shifted.enclosingHeaders_eq`, `blockEnd_eq`, `dedentHeader?_eq`, `electricHeader?_eq`,
  `guessIndentUnit?_eq`: one search each;
* `navigation_survives_shift`.
-/

namespace Offside

/-- The first elements with a property depend only on which elements of the list have it. -/
theorem takeWhile_congr_of_mem {p q : Nat → Bool} {l : List Nat} (h : ∀ k ∈ l, p k = q k) :
    l.takeWhile p = l.takeWhile q := by
  induction l with
  | nil => rfl
  | cons a l ih =>
    obtain ⟨ha, hl⟩ := List.forall_mem_cons.1 h
    rw [List.takeWhile_cons, List.takeWhile_cons, ha, ih hl]

theorem findSome?_congr_of_mem {f g : Nat → Option Nat} {l : List Nat} (h : ∀ k ∈ l, f k = g k) :
    l.findSome? f = l.findSome? g := by
  induction l with
  | nil => rfl
  | cons a l ih =>
    obtain ⟨ha, hl⟩ := List.forall_mem_cons.1 h
    rw [List.findSome?_cons, List.findSome?_cons, ha, ih hl]

namespace Document

variable {d : Document} {line header : Nat}

/-! ### The lines that dedent keywords are matched with -/

/-- The line of the header that the keyword at a line continues. -/
def dedentHeader? (d : Document) (line : Nat) : Option Nat := do
  let keyword ← d.dedentKeyword? line
  let column := d.buffer.indentation line
  let header ← (d.statementsAbove line).find? fun l => decide (d.buffer.indentation l ≤ column)
  if d.buffer.indentation header = column ∧ d.closes keyword header then some header else none

theorem dedentMatch?_eq (d : Document) (line : Nat) :
    d.dedentMatch? line = (d.dedentHeader? line).map d.buffer.indentationEnd := by
  have hfind : ∀ column, ((d.statementsAbove line).dropWhile fun l =>
      decide (column < d.buffer.indentation l)).head? =
        (d.statementsAbove line).find? fun l => decide (d.buffer.indentation l ≤ column) := by
    intro column
    rw [← List.find?_not_eq_head?_dropWhile]
    congr 1
    funext l
    rw [← decide_not, decide_eq_decide, Nat.not_lt]
  rw [dedentMatch?, dedentHeader?]
  cases d.dedentKeyword? line with
  | none => rfl
  | some keyword =>
    dsimp only [Option.bind_eq_bind, Option.bind_some]
    rw [hfind]
    cases (d.statementsAbove line).find? fun l =>
        decide (d.buffer.indentation l ≤ d.buffer.indentation line) with
    | none => rfl
    | some header =>
      dsimp only [Option.bind_some]
      split <;> rfl

/-- The line of the header that a dedent keyword at a line should be lined up with. -/
def electricHeader? (d : Document) (line : Nat) : Option Nat := do
  let keyword ← d.dedentKeyword? line
  if d.endsWithColon line (d.statementEnd line) then
    (d.shallower (d.buffer.indentation line + 1) (d.statementsAbove line)).find? (d.closes keyword)
  else none

/-- Nothing is shallower than column zero. -/
theorem shallower_zero (d : Document) (above : List Nat) : d.shallower 0 above = [] := by
  induction above with
  | nil => rfl
  | cons l above ih => rw [shallower, if_neg (Nat.not_lt_zero _), ih]

/-- Stopping at column zero makes no difference. -/
theorem electricSearch_eq (d : Document) (keyword : DedentKeyword) (limit : Nat)
    (above : List Nat) :
    d.electricSearch keyword limit above =
      ((d.shallower limit above).find? (d.closes keyword)).map d.buffer.indentationEnd := by
  induction above generalizing limit with
  | nil => rfl
  | cons l above ih =>
    rw [electricSearch, shallower]
    by_cases hlt : d.buffer.indentation l < limit
    · rw [if_pos hlt, if_pos hlt]
      by_cases hcloses : d.closes keyword l = true
      · rw [if_pos hcloses, List.find?_cons_of_pos hcloses, Option.map_some]
      · rw [if_neg hcloses, List.find?_cons_of_neg hcloses]
        by_cases hzero : d.buffer.indentation l = 0
        · rw [if_pos hzero, hzero, shallower_zero, List.find?_nil, Option.map_none]
        · rw [if_neg hzero, ih]
    · rw [if_neg hlt, if_neg hlt, ih]

theorem electricMatch?_eq (d : Document) (line : Nat) :
    d.electricMatch? line = (d.electricHeader? line).map d.buffer.indentationEnd := by
  rw [electricMatch?, electricHeader?]
  cases d.dedentKeyword? line with
  | none => rfl
  | some keyword =>
    dsimp only [Option.bind_eq_bind, Option.bind_some]
    split
    · exact d.electricSearch_eq keyword _ _
    · rfl

end Document

/-! ### Searches at moved columns -/

/-- Two documents with the same statements, headers and dedent keywords, where the code of the
second stands `n` columns further to the right. -/
structure Shifted (n : Nat) (d e : Document) : Prop extends SameStatements d e where
  indentation_eq : ∀ l, d.StartsCode l → e.buffer.indentation l = d.buffer.indentation l + n
  isBlockHeader_eq : ∀ l, d.isBlockHeader l = e.isBlockHeader l
  dedentKeyword?_eq : ∀ l, d.dedentKeyword? l = e.dedentKeyword? l
  closes_eq : ∀ k l, d.closes k l = e.closes k l
  endsWithColon_eq : ∀ l, 1 ≤ l → l ≤ d.lineCount →
    d.endsWithColon l (d.statementEnd l) = e.endsWithColon l (e.statementEnd l)

namespace Shifted

variable {d e : Document} {n line : Nat}

theorem shallower_eq (h : Shifted n d e) {above : List Nat} (habove : ∀ l ∈ above, d.StartsCode l)
    (threshold : Nat) : d.shallower threshold above = e.shallower (threshold + n) above := by
  induction above generalizing threshold with
  | nil => rfl
  | cons l above ih =>
    obtain ⟨hl, habove⟩ := List.forall_mem_cons.1 habove
    rw [Document.shallower, Document.shallower, h.indentation_eq l hl]
    by_cases hlt : d.buffer.indentation l < threshold
    · rw [if_pos hlt, if_pos (by omega), ih habove]
    · rw [if_neg hlt, if_neg (by omega), ih habove]

theorem startsCode_above (hline : line ≤ d.lineCount) :
    ∀ l ∈ d.statementsAbove line, d.StartsCode l :=
  fun _ hl => Document.startsCode_of_mem_statementsAbove (by omega) hl

theorem enclosingHeaders_eq (h : Shifted n d e) (hline : line ≤ d.lineCount)
    (hcolumn : e.buffer.indentation line = d.buffer.indentation line + n) :
    d.enclosingHeaders line = e.enclosingHeaders line := by
  have hheader : d.isBlockHeader = e.isBlockHeader := funext h.isBlockHeader_eq
  rw [Document.enclosingHeaders, Document.headersAround_eq, h.shallower_eq (startsCode_above hline),
    ← hcolumn, h.statementsAbove_eq, hheader, ← Document.headersAround_eq,
    ← Document.enclosingHeaders]

theorem blockEnd_eq (h : Shifted n d e) (hone : 1 ≤ line) (hle : line ≤ d.lineCount)
    (hcolumn : e.buffer.indentation line = d.buffer.indentation line + n) :
    d.blockEnd line = e.blockEnd line := by
  have hbody : (d.statementsBelow line).takeWhile (fun l =>
      decide (d.buffer.indentation line < d.buffer.indentation l)) =
        (e.statementsBelow line).takeWhile fun l =>
          decide (e.buffer.indentation line < e.buffer.indentation l) := by
    rw [← h.statementsBelow_eq]
    refine takeWhile_congr_of_mem fun k hk => ?_
    rw [h.indentation_eq k ((Document.mem_statementsBelow_iff hone hle).1 hk).1, hcolumn]
    simp
  rw [Document.blockEnd, Document.blockEnd, hbody, h.statementEnd_eq]

theorem dedentHeader?_eq (h : Shifted n d e) (hline : line ≤ d.lineCount)
    (hcolumn : e.buffer.indentation line = d.buffer.indentation line + n) :
    d.dedentHeader? line = e.dedentHeader? line := by
  have hfind : ((d.statementsAbove line).find? fun l =>
      decide (d.buffer.indentation l ≤ d.buffer.indentation line)) =
        (e.statementsAbove line).find? fun l =>
          decide (e.buffer.indentation l ≤ e.buffer.indentation line) := by
    rw [← h.statementsAbove_eq]
    refine List.find?_congr fun l hl => ?_
    rw [h.indentation_eq l (startsCode_above hline l hl), hcolumn]
    simp
  rw [Document.dedentHeader?, Document.dedentHeader?, ← h.dedentKeyword?_eq]
  cases d.dedentKeyword? line with
  | none => rfl
  | some keyword =>
    dsimp only [Option.bind_eq_bind, Option.bind_some]
    rw [← hfind]
    cases hfound : (d.statementsAbove line).find? fun l =>
        decide (d.buffer.indentation l ≤ d.buffer.indentation line) with
    | none => rfl
    | some header =>
      have hcode := startsCode_above hline header (List.mem_of_find?_eq_some hfound)
      dsimp only [Option.bind_some]
      rw [h.indentation_eq header hcode, hcolumn, h.closes_eq]
      simp

theorem electricHeader?_eq (h : Shifted n d e) (hone : 1 ≤ line) (hle : line ≤ d.lineCount)
    (hcolumn : e.buffer.indentation line = d.buffer.indentation line + n) :
    d.electricHeader? line = e.electricHeader? line := by
  have hcloses : d.closes = e.closes := funext fun k => funext fun l => h.closes_eq k l
  rw [Document.electricHeader?, Document.electricHeader?, ← h.dedentKeyword?_eq,
    ← h.endsWithColon_eq line hone hle, h.shallower_eq (startsCode_above hle), hcolumn,
    h.statementsAbove_eq, hcloses, Nat.add_right_comm]

/-- Bodies stand deeper than their headers by as much as before. -/
theorem bodyOffset?_eq (h : Shifted n d e) (hline : d.StartsCode line) :
    d.bodyOffset? line = e.bodyOffset? line := by
  rw [Document.bodyOffset?, Document.bodyOffset?, ← h.statementEnd_eq, ← h.nextCodeLine?_eq]
  cases hnext : d.nextCodeLine? (d.statementEnd line) with
  | none => rfl
  | some body =>
    have hbody : d.StartsCode body := by
      obtain ⟨hlt, hle, -⟩ := Document.nextCodeLine?_eq_some_iff.1 hnext
      refine Document.startsCode_nextCodeLine? (.inr ?_) hnext
      exact Document.not_continues_statementEnd hline.mem.1 hline.mem.2 (by omega)
    dsimp only [Option.bind_eq_bind, Option.bind_some]
    rw [h.indentation_eq line hline, h.indentation_eq body hbody, Nat.add_sub_add_right]

theorem guessIndentUnit?_eq (h : Shifted n d e) : d.guessIndentUnit? = e.guessIndentUnit? := by
  rw [Document.guessIndentUnit?, Document.guessIndentUnit?, ← h.statementsAfter_eq]
  refine findSome?_congr_of_mem fun l hl => ?_
  rw [h.isBlockHeader_eq, h.bodyOffset?_eq (Document.mem_statementsAfter_zero.1 hl)]

end Shifted

/-! ### Shifting all lines -/

namespace SameOutline

variable {d e : Document} (h : SameOutline d e)
include h

theorem dedentKeyword?_eq (hs : e.settings = d.settings) (l : Nat) :
    d.dedentKeyword? l = e.dedentKeyword? l := by
  rw [Document.dedentKeyword?, Document.dedentKeyword?, h.hasLine_eq, h.statementStart_eq, hs,
    DedentKeyword.atLineStart?_congr (h.trimStart_eq l)]

theorem closes_eq (hs : e.settings = d.settings) (k : DedentKeyword) (l : Nat) :
    d.closes k l = e.closes k l := by
  rw [Document.closes, Document.closes, h.blockKeyword?_eq, hs]

theorem endsWithColon_statementEnd_eq {l : Nat} (hone : 1 ≤ l) (hle : l ≤ d.lineCount) :
    d.endsWithColon l (d.statementEnd l) = e.endsWithColon l (e.statementEnd l) := by
  obtain ⟨hge, hend⟩ := Document.statementEnd_mem hone hle
  rw [← h.statementEnd_eq, h.endsWithColon_eq hone hge hend]

end SameOutline

namespace Document

variable {d e : Document} {lines : List Nat} {column : Nat → Nat} {line : Nat}

/-- Statements with code do not start on blank lines. -/
theorem StartsCode.isBlank_eq (h : d.StartsCode line) : d.buffer.isBlank line = false := by
  obtain ⟨hone, hle⟩ := h.mem
  have hstate := (isStatement_of_line hone hle).lineStartState_eq
  rw [h.1] at hstate
  by_contra hblank
  have htrim : (d.buffer.lineText line).trimStart = [] :=
    (Text.isBlank_iff_trimStart _).1 (by simpa [Buffer.isBlank] using hblank)
  have hcode := h.2
  rw [isBlankOrComment, htrim, hstate] at hcode
  cases hcode

/-- A line that is given new indentation stands at the column that was asked for. -/
theorem indentation_of_indentationEdits (hs : e.settings = d.settings)
    (he : e.text.rows = d.text.rows.mapIdx fun k r =>
      Text.indentWith (d.newIndentation lines column k) r)
    (hline : 1 ≤ line ∧ line ≤ d.lineCount) (hmem : line ∈ lines) :
    e.buffer.indentation line = column line := by
  obtain ⟨above, row, below, hd, rfl⟩ := Buffer.exists_rows hline.1 hline.2
  rw [show d.text.rows = _ from hd, List.mapIdx_append, List.mapIdx_cons, Nat.zero_add,
    newIndentation, if_pos hmem] at he
  have hlength : (above.mapIdx fun k r =>
      Text.indentWith (d.newIndentation lines column k) r).length = above.length :=
    List.length_mapIdx
  have hindent := indentation_written he hs
  rwa [hlength] at hindent

end Document

end Offside
