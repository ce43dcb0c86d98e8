import Offside.Proofs.LineEndings.Scan
import Offside.Proofs.Shift

/-!
# Structure with other line endings

With other line endings a document has the same structure: the scanner is in the same state at every
boundary, with the offsets that it has recorded moved along, and the lines continue, form statements
and begin blocks in the same way.

* `CrlfVersion.stateAt_eq`, `lineStartState_eq`: the scanner;
* `CrlfVersion.codeCharsOfLines_eq`: code characters;
* `CrlfVersion.continuation_eq`, `endsWithColon_eq`, `shifted`: lines, statements and headers;
* `CrlfVersion.status_eq`: the status of a line.
-/

namespace Offside

open Lexical
open Text (size)

/-- The code characters of a stretch of a text. -/
theorem Lexical.codeChars_size (p q x : Text) {s : Scanner}
    (hs : s = ({} : Scanner).read [] p (q ++ x)) :
    Lexical.codeChars (p ++ (q ++ x)) (size p) (size p + size q) =
      s.codeRead s.state.depth p.reverse q x := by
  have hoffset : s.offset = size p := by rw [hs, Scanner.read_offset, Nat.zero_add]
  rw [Lexical.codeChars, Scanner.ofOffset_size, ← hs, Scanner.codeCharsOf, hoffset,
    Text.takeBytes_size, Text.dropBytes_size, ← hoffset, Scanner.codeChars_size_add]

/-- A filter that keeps nothing of line endings can be applied after they are dropped. -/
theorem Lexical.CodeChar.filter_filter_inBody {keep : CodeChar → Bool}
    (hkeep : ∀ k, keep k = true → k.inBody = true) (ks : List CodeChar) :
    (ks.filter CodeChar.inBody).filter keep = ks.filter keep := by
  rw [List.filter_filter]
  congr 1
  funext k
  rw [Bool.and_eq_left_iff_imp]
  exact hkeep k

/-- The status of a line by an offset in another text. -/
def Status.map (f : Nat → Nat) : Status → Status
  | .noIndent => .noIndent
  | .insideParen a => .insideParen (f a)
  | .insideString a => .insideString (f a)
  | .afterBackslash a => .afterBackslash (f a)
  | .afterBlockStart a => .afterBlockStart (f a)
  | .afterLine a => .afterLine (f a)

@[simp] theorem Status.name_map (f : Nat → Nat) (s : Status) : (s.map f).name = s.name := by
  cases s <;> rfl

@[simp] theorem Status.anchor?_map (f : Nat → Nat) (s : Status) :
    (s.map f).anchor? = s.anchor?.map f := by
  cases s <;> rfl

namespace CrlfVersion

variable {d e : Document} {m n offset start stop : Nat}

/-! ### The scanner -/

/-- The state at a boundary is the same, with corresponding offsets recorded. -/
theorem classify_eq (h : CrlfVersion d e) (ho : d.text.IsBoundary offset) :
    classify e.text (d.text.crlfOffset offset) =
      (classify d.text offset).map d.text.crlfOffset := by
  obtain ⟨p, x, htext, rfl⟩ := Text.isBoundary_iff.1 ho
  have hr : '\r' ∉ p ++ x := htext ▸ h.not_mem
  rw [h.text_eq, htext, Text.crlfOffset_size, Text.withCrlf_append, classify, classify,
    Scanner.ofOffset_size, Scanner.ofOffset_size]
  exact (Scanner.follows_read hr).state_eq

theorem stateAt_eq (h : CrlfVersion d e) (ho : d.text.IsBoundary offset) :
    e.stateAt (d.text.crlfOffset offset) = (d.stateAt offset).map d.text.crlfOffset := by
  rw [Document.stateAt_eq, Document.stateAt_eq, h.classify_eq ho]

theorem lineStartState_eq (h : CrlfVersion d e) (m : Nat) :
    e.lineStartState m = (d.lineStartState m).map d.text.crlfOffset := by
  rw [Document.lineStartState_eq, Document.lineStartState_eq, ← h.crlfOffset_lineStart,
    h.classify_eq (d.buffer.isBoundary_lineStart m)]

/-- Between two boundaries there are the same code characters apart from line endings. -/
theorem codeChars_eq (h : CrlfVersion d e) (hstart : d.text.IsBoundary start)
    (hstop : d.text.IsBoundary stop) (hle : start ≤ stop) :
    (Lexical.codeChars e.text (d.text.crlfOffset start) (d.text.crlfOffset stop)).filter
        CodeChar.inBody =
      ((Lexical.codeChars d.text start stop).filter CodeChar.inBody).map
        (CodeChar.map d.text.crlfOffset) := by
  obtain ⟨p, q, x, htext, rfl, rfl⟩ := Text.exists_append_of_isBoundary hstart hstop hle
  have hr : '\r' ∉ p ++ (q ++ x) := htext ▸ h.not_mem
  have hfollows := Scanner.follows_read hr
  have hstop' : (p ++ (q ++ x)).crlfOffset (size p + size q) =
      size p.withCrlf + size q.withCrlf := by
    rw [← List.append_assoc, ← Text.size_append, Text.crlfOffset_size, Text.withCrlf_append,
      Text.size_append]
  rw [h.text_eq, htext, Text.crlfOffset_size, hstop', Text.withCrlf_append, Text.withCrlf_append,
    Lexical.codeChars_size _ _ _ rfl, Lexical.codeChars_size _ _ _ rfl, ← Text.withCrlf_append,
    hfollows.depth_eq, Scanner.codeRead_withCrlf hr]

theorem codeCharsOfLines_eq (h : CrlfVersion d e) (hm : 1 ≤ m) (hmn : m ≤ n)
    (hn : n ≤ d.lineCount) :
    (e.codeCharsOfLines m (e.buffer.lineEnd n)).filter CodeChar.inBody =
      ((d.codeCharsOfLines m (d.buffer.lineEnd n)).filter CodeChar.inBody).map
        (CodeChar.map d.text.crlfOffset) := by
  have hle : d.buffer.lineStart m ≤ d.buffer.lineEnd n :=
    Nat.le_trans (d.buffer.lineStart_le_indentationEnd m)
      (Buffer.indentationEnd_le_lineEnd hm hmn hn)
  rw [Document.codeCharsOfLines_eq, Document.codeCharsOfLines_eq, ← h.crlfOffset_lineStart,
    ← h.crlfOffset_lineEnd,
    h.codeChars_eq (d.buffer.isBoundary_lineStart m) (d.buffer.isBoundary_lineEnd n) hle]

/-! ### Lines and statements -/

theorem endsBackslash_eq (h : CrlfVersion d e) (m : Nat) :
    e.endsBackslash m = d.endsBackslash m := by
  rw [Document.endsBackslash, Document.endsBackslash, h.hasLine_eq, h.lineText_eq]
  by_cases hodd : ((d.buffer.lineText m).reverse.takeWhile (· == '\\')).length % 2 = 1
  · obtain ⟨u, hu⟩ := Text.exists_backslash hodd
    have hone : size ['\\'] = 1 := rfl
    have hend : ∀ b : Buffer, b.lineText m = u ++ ['\\'] →
        b.lineEnd m - 1 = b.lineStart m + size u := by
      intro b hb
      rw [b.lineEnd_eq_add, hb, Text.size_append, hone, ← Nat.add_assoc, Nat.add_sub_cancel]
    rw [hend d.buffer hu, hend e.buffer (h.lineText_eq m ▸ hu), ← h.crlfOffset_eq hu,
      h.stateAt_eq (Buffer.isBoundary_of_lineText hu), State.map_isCode]
  · have hfalse :
        (((d.buffer.lineText m).reverse.takeWhile (· == '\\')).length % 2 == 1) = false := by
      simpa using hodd
    rw [hfalse, Bool.and_false, Bool.false_and, Bool.false_and]

/-- Lines continue for the same reason. -/
theorem continuation_eq (h : CrlfVersion d e) (m : Nat) : e.continuation m = d.continuation m := by
  have hafter := h.stateAt_eq (d.buffer.isBoundary_nextLineStart m)
  rw [h.crlfOffset_nextLineStart] at hafter
  rw [Document.continuation, Document.continuation, h.hasLine_eq, hafter, h.endsBackslash_eq]
  dsimp only
  rw [State.map_depth, State.map_inString]

theorem isBlankOrComment_eq (h : CrlfVersion d e) (m : Nat) :
    e.isBlankOrComment m = d.isBlankOrComment m := by
  rw [Document.isBlankOrComment, Document.isBlankOrComment, h.lineText_eq, h.lineStartState_eq,
    State.map_inString]

theorem sameStatements (h : CrlfVersion d e) : SameStatements d e where
  lineCount_eq := h.lineCount_eq
  continues_eq m := by rw [Document.continues, Document.continues, h.continuation_eq]
  isBlankOrComment_eq m := (h.isBlankOrComment_eq m).symm

/-! ### Headers -/

theorem endsWithColon_eq (h : CrlfVersion d e) (hm : 1 ≤ m) (hmn : m ≤ n) (hn : n ≤ d.lineCount) :
    d.endsWithColon m n = e.endsWithColon m n := by
  have hkeep : ∀ k : CodeChar, (!isWhiteSpace k.char && k.char != '\\') = true →
      k.inBody = true := by
    intro k hk
    have hr : k.char ≠ '\r' := fun hchar => by rw [hchar] at hk; exact absurd hk (by decide)
    have hn : k.char ≠ '\n' := fun hchar => by rw [hchar] at hk; exact absurd hk (by decide)
    simp [CodeChar.inBody, hr, hn]
  rw [Document.endsWithColon, Document.endsWithColon, ← CodeChar.filter_filter_inBody hkeep,
    ← CodeChar.filter_filter_inBody hkeep (e.codeCharsOfLines _ _), h.codeCharsOfLines_eq hm hmn hn,
    List.filter_map, List.getLast?_map, Option.any_map]
  rfl

theorem isBlockHeader_eq (h : CrlfVersion d e) (m : Nat) :
    d.isBlockHeader m = e.isBlockHeader m := by
  have hlo := d.one_le_statementStart m
  have hle := d.statementStart_le_lineCount m
  obtain ⟨hge, hend⟩ := Document.statementEnd_mem hlo hle
  rw [Document.isBlockHeader, Document.isBlockHeader, ← h.sameStatements.statementStart_eq,
    ← h.sameStatements.statementEnd_eq, h.lineText_eq, h.endsWithColon_eq hlo hge hend]

/-- All code stands at the same columns. -/
theorem shifted (h : CrlfVersion d e) : Shifted 0 d e where
  toSameStatements := h.sameStatements
  indentation_eq l _ := h.indentation_eq l
  isBlockHeader_eq := h.isBlockHeader_eq
  dedentKeyword?_eq l := by
    rw [Document.dedentKeyword?, Document.dedentKeyword?, h.hasLine_eq, h.lineText_eq,
      h.sameStatements.statementStart_eq, h.settings_eq]
  closes_eq k l := by rw [Document.closes, Document.closes, h.lineText_eq, h.settings_eq]
  endsWithColon_eq l hone hle := by
    obtain ⟨hge, hend⟩ := Document.statementEnd_mem hone hle
    rw [← h.sameStatements.statementEnd_eq, h.endsWithColon_eq hone hge hend]

/-! ### The status of a line -/

theorem statusAfter_eq (h : CrlfVersion d e) (previous : Nat) :
    e.statusAfter previous = (d.statusAfter previous).map d.text.crlfOffset := by
  rw [Document.statusAfter, Document.statusAfter, ← h.sameStatements.statementStart_eq,
    ← h.isBlockHeader_eq, ← h.crlfOffset_indentationEnd]
  split <;> rfl

/-- The status of a line has the same name and the corresponding anchor. -/
theorem status_eq (h : CrlfVersion d e) (line : Nat) :
    e.status line = (d.status line).map d.text.crlfOffset := by
  rw [Document.status, Document.status, h.clampLine_eq]
  dsimp only
  split
  · rfl
  · rw [h.lineStartState_eq, State.map_innermostParen?, State.map_string?, h.endsBackslash_eq,
      ← h.sameStatements.previousCodeLine?_eq, ← h.crlfOffset_lineStart]
    cases (d.lineStartState (d.buffer.clampLine line)).innermostParen? with
    | some bracket => rfl
    | none =>
      cases (d.lineStartState (d.buffer.clampLine line)).string? with
      | some s => rfl
      | none =>
        dsimp only [Option.map_none]
        split
        · rfl
        · cases d.previousCodeLine? (d.buffer.clampLine line) with
          | none => rfl
          | some previous => exact h.statusAfter_eq previous

end CrlfVersion

end Offside
