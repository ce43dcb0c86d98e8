import Offside.Proofs.FirstVisible
import Offside.Proofs.Partition

/-!
# The status of a line and how the line above continues

The status of a line asks at its start what is open there; whether the line above continues is asked
at the end of that line.  Both ask in the same order and find the same.  A line that is no
continuation goes by the nearest statement above it, which has ended by then.  It goes by where the
indentation of that statement ends, which is its first visible character if only indentation stands
before it, as before every block header.

* `Status.continuation?`: why the line above continues, by the status of a line;
* `Document.continuation_eq`: the same, asked of the line above;
* `Document.IsNearestAbove`: the nearest statement above a line;
* `Document.AnchorSpec`: what a status says of its anchor;
* `status_agrees_with_continuation`.
-/

namespace Offside

open Lexical

/-- Why the line above a line of this status continues onto it, if it does. -/
def Status.continuation? : Status → Option Continuation
  | .insideParen _ => some .paren
  | .insideString _ => some .string
  | .afterBackslash _ => some .backslash
  | .noIndent | .afterBlockStart _ | .afterLine _ => none

namespace Document

variable {d : Document} {line m : Nat}

/-! ### The line above -/

theorem statusAfter_continuation? (d : Document) (previous : Nat) :
    (d.statusAfter previous).continuation? = none := by
  unfold statusAfter
  dsimp only
  split <;> rfl

theorem depth_pos_iff {s : State} : 0 < s.depth ↔ s.innermostParen?.isSome = true := by
  rw [State.depth, State.innermostParen?, List.isSome_head?, List.length_pos_iff]

/-- Why a line continues is told by the status of the next one. -/
theorem continuation_eq (hm : 1 ≤ m) (hlt : m < d.lineCount) :
    d.continuation m = (d.status (m + 1)).continuation? := by
  have hline : d.buffer.hasLine m = true := Buffer.hasLine_iff.2 ⟨hm, Nat.le_of_lt hlt⟩
  have hasked : d.continuation m =
      if (d.lineStartState (m + 1)).innermostParen?.isSome then some .paren
      else if (d.lineStartState (m + 1)).string?.isSome then some .string
      else if d.endsBackslash m then some .backslash else none := by
    simp only [continuation, hline, if_true, stateAt_nextLineStart hm hlt, depth_pos_iff,
      State.inString]
  -- both sides ask for brackets first, then for a string, then for a backslash
  cases hparen : (d.lineStartState (m + 1)).innermostParen? with
  | some bracket =>
    rw [hasked, status_of_paren hm hlt hparen, hparen]
    rfl
  | none =>
    cases hstring : (d.lineStartState (m + 1)).string? with
    | some s =>
      rw [hasked, status_of_string hm hlt hparen hstring, hparen, hstring]
      rfl
    | none =>
      cases hback : d.endsBackslash m with
      | true =>
        rw [hasked, status_of_backslash hm hlt hparen hstring hback, hparen, hstring, hback]
        rfl
      | false =>
        have hlast := (continues_eq_false_iff hm hlt).2 ⟨hparen, hstring, hback⟩
        rw [hasked, status_of_not_continues hm hlt hlast, hparen, hstring, hback]
        cases d.previousCodeLine? (m + 1) with
        | none => rfl
        | some p =>
          rw [Option.elim_some, statusAfter_continuation?]
          rfl

/-- A line continues another one exactly if its statement starts above it. -/
theorem continues_iff_statementStart_lt (hm : 1 ≤ m) (hlt : m < d.lineCount) :
    d.continues m = true ↔ d.statementStart (m + 1) < m + 1 := by
  have hle := statementStart_le (d := d) (m := m + 1) (by omega) hlt
  have hself := startFrom_eq_self_iff (d := d) (m := m + 1) (by omega)
  rw [← statementStart_of_hasLine (m := m + 1) (by omega) hlt, Nat.add_sub_cancel] at hself
  constructor
  · intro hc
    refine Nat.lt_of_le_of_ne hle fun he => ?_
    rw [(hself.1 he).resolve_left (by omega)] at hc
    cases hc
  · intro hlt'
    by_contra hc
    have hstart := hself.2 (.inr (by simpa using hc))
    omega

/-! ### The nearest statement above -/

/-- Whether `start` is the first line of the nearest statement with code on it above a line, and that
statement ends above the line. -/
structure IsNearestAbove (d : Document) (line start : Nat) : Prop where
  startsCode : d.StartsCode start
  ends_above : d.statementEnd start < line
  nearest : ∀ m, d.StartsCode m → m < line → m ≤ start

/-- The nearest code line above a line that is no continuation belongs to the nearest statement
above it. -/
theorem isNearestAbove_of_previousCodeLine? {p : Nat} (hlt : m < d.lineCount)
    (hlast : d.continues m = false) (hp : d.previousCodeLine? (m + 1) = some p) :
    d.IsNearestAbove (m + 1) (d.statementStart p) := by
  obtain ⟨hlo, hhi, hcode, hbetween⟩ := previousCodeLine?_eq_some hp
  have hcount : p ≤ d.lineCount := by omega
  have h := isStatement_of_line hlo hcount
  have hstart := statementStart_le hlo hcount
  obtain ⟨hend, -⟩ := statementEnd_mem hlo hcount
  obtain ⟨hsame, hsame'⟩ := h.bounds_eq (Nat.le_refl _) h.first_le
  refine ⟨⟨hsame, ?_⟩, ?_, fun k hk hkm => ?_⟩
  · -- a blank first line would be the whole statement, and so the code line itself
    by_contra hblank
    have hone := h.eq_of_isBlankOrComment (by simpa using hblank)
    rw [show d.statementStart p = p by omega, hcode] at hblank
    exact hblank rfl
  · rw [hsame']
    by_contra hge
    rw [h.joined m (by omega) (by omega)] at hlast
    cases hlast
  · by_contra hgt
    have hkp : k ≤ p := by
      by_contra hpk
      have hkcode := hk.2
      rw [hbetween k (by omega) hkm] at hkcode
      cases hkcode
    have hkstart := (h.bounds_eq (m := k) (by omega) (by omega)).1
    rw [hk.1] at hkstart
    omega

/-! ### Anchors -/

/-- What a status says of the anchor that it goes by. -/
def AnchorSpec (d : Document) (line : Nat) : Status → Prop
  | .insideParen a => (classify d.text (d.buffer.lineStart line)).innermostParen? = some a
  | .insideString a =>
    ∃ s, (classify d.text (d.buffer.lineStart line)).string? = some s ∧ s.start = a
  | .afterBackslash a => a = d.buffer.lineStart (line - 1)
  | .afterBlockStart a =>
    ∃ start, d.IsNearestAbove line start ∧ a = d.buffer.firstVisible start ∧
      d.isBlockHeader start = true
  | .afterLine a =>
    ∃ start, d.IsNearestAbove line start ∧ a = d.buffer.indentationEnd start ∧
      (a = d.buffer.firstVisible start ↔ (d.buffer.lineText start).IsIndented) ∧
      d.isBlockHeader start = false
  | .noIndent => ∀ start, d.StartsCode start → line ≤ start

theorem anchorSpec_statusAfter {p : Nat} (h : d.IsNearestAbove line (d.statementStart p)) :
    d.AnchorSpec line (d.statusAfter p) := by
  unfold statusAfter
  dsimp only
  split
  · next hheader =>
    exact ⟨_, h, (firstVisible_of_isBlockHeader h.startsCode.1 hheader).symm, hheader⟩
  · next hheader =>
    exact ⟨_, h, rfl, Buffer.indentationEnd_eq_firstVisible_iff, by simpa using hheader⟩

theorem anchorSpec_status (hm : 1 ≤ m) (hlt : m < d.lineCount) :
    d.AnchorSpec (m + 1) (d.status (m + 1)) := by
  cases hparen : (d.lineStartState (m + 1)).innermostParen? with
  | some bracket =>
    rw [status_of_paren hm hlt hparen, AnchorSpec, ← lineStartState_eq, hparen]
  | none =>
    cases hstring : (d.lineStartState (m + 1)).string? with
    | some s =>
      rw [status_of_string hm hlt hparen hstring, AnchorSpec, ← lineStartState_eq]
      exact ⟨s, hstring, rfl⟩
    | none =>
      cases hback : d.endsBackslash m with
      | true =>
        rw [status_of_backslash hm hlt hparen hstring hback, AnchorSpec, Nat.add_sub_cancel]
      | false =>
        have hlast := (continues_eq_false_iff hm hlt).2 ⟨hparen, hstring, hback⟩
        rw [status_of_not_continues hm hlt hlast]
        cases hp : d.previousCodeLine? (m + 1) with
        | none =>
          rw [Option.elim_none]
          intro start hstart
          by_contra habove
          obtain ⟨p, hp', -⟩ := exists_previousCodeLine? hstart.mem.1 (Nat.lt_of_not_le habove)
            hstart.2
          rw [hp] at hp'
          cases hp'
        | some p =>
          rw [Option.elim_some]
          exact anchorSpec_statusAfter (isNearestAbove_of_previousCodeLine? hlt hlast hp)

/-- The anchor of a line stands above it. -/
theorem anchor_lt {a : Nat} (hm : 1 ≤ m) (hlt : m < d.lineCount)
    (ha : (d.status (m + 1)).anchor? = some a) : a < d.buffer.lineStart (m + 1) := by
  have hspec := anchorSpec_status hm hlt
  have habove : ∀ start, d.IsNearestAbove (m + 1) start →
      d.buffer.indentationEnd start < d.buffer.lineStart (m + 1) := by
    intro start h
    have hend := (statementEnd_mem h.startsCode.mem.1 h.startsCode.mem.2).1
    have hends := h.ends_above
    have hbelow := (Buffer.lineEnd_lt_lineStart (b := d.buffer) h.startsCode.mem.1
      (show start < m + 1 by omega) hlt).1
    exact Nat.lt_of_le_of_lt (d.buffer.indentationEnd_le start) hbelow
  cases hstatus : d.status (m + 1) with
  | noIndent =>
    rw [hstatus] at ha
    cases ha
  | insideParen bracket =>
    rw [hstatus] at ha hspec
    cases ha
    exact bracket_lt (lineStartState_eq d _ ▸ hspec)
  | insideString start =>
    rw [hstatus] at ha hspec
    cases ha
    obtain ⟨s, hs, rfl⟩ := hspec
    exact stringStart_lt (lineStartState_eq d _ ▸ hs)
  | afterBackslash previous =>
    rw [hstatus] at ha hspec
    cases ha
    have hbelow := (Buffer.lineEnd_lt_lineStart (b := d.buffer) hm (Nat.lt_succ_self m) hlt).1
    rw [show a = d.buffer.lineStart m from hspec]
    exact Nat.lt_of_le_of_lt (Nat.le_add_right _ _) hbelow
  | afterBlockStart header =>
    rw [hstatus] at ha hspec
    cases ha
    obtain ⟨start, h, rfl, hheader⟩ := hspec
    rw [firstVisible_of_isBlockHeader h.startsCode.1 hheader]
    exact habove start h
  | afterLine previous =>
    rw [hstatus] at ha hspec
    cases ha
    obtain ⟨start, h, rfl, -⟩ := hspec
    exact habove start h

end Document

/-- **The status of a line tells how the line above continues.**  From the second line on, a line is
in brackets, in a string or after a backslash exactly if the line above it continues for that
reason, and it has another status exactly if the line above does not continue.  So it has one of
those three statuses exactly if its statement starts above it.  Its anchor stands above it: the
innermost bracket that is open at its start, the start of the string open there, the start of the
line above, or else a place in the nearest statement above it, which is a block header exactly if
the status says so.  In a header that place is the first visible character.  In another statement it
is the end of the indentation, which is the first visible character exactly if only indentation
stands before that.  With no anchor there is no statement above. -/
theorem status_agrees_with_continuation (d : Document) (line : Nat) (hline : 2 ≤ line)
    (hle : line ≤ d.lineCount) :
    (d.status line).continuation? = d.continuation (line - 1) ∧
    ((d.status line).continuation?.isSome = true ↔ d.statementStart line < line) ∧
    (∀ a, (d.status line).anchor? = some a → a < d.buffer.lineStart line) ∧
    d.AnchorSpec line (d.status line) := by
  obtain ⟨m, rfl⟩ : ∃ m, line = m + 1 := ⟨line - 1, by omega⟩
  have hm : 1 ≤ m := by omega
  have hsame := Document.continuation_eq hm hle
  refine ⟨hsame.symm, ?_, fun a => Document.anchor_lt hm hle, Document.anchorSpec_status hm hle⟩
  rw [← hsame, ← Document.continues_iff_statementStart_lt hm hle, Document.continues]

/-- A line after a comment in brackets, and one after a block header that ends below a backslash. -/
theorem status_agrees_with_continuation_at_header :
    let d := Document.ofText "if (a,\n# b\n) \\\n:\n\nc".toList
    d.status 3 = .insideParen 3 ∧ d.continuation 2 = some .paren ∧ d.status 6 = .afterBlockStart 0 ∧
      ∃ start, d.IsNearestAbove 6 start ∧ 0 = d.buffer.firstVisible start ∧
        d.isBlockHeader start = true := by
  intro d
  have hcount : 6 ≤ d.lineCount := by decide +kernel
  have h3 : d.status 3 = .insideParen 3 := by decide +kernel
  have h6 : d.status 6 = .afterBlockStart 0 := by decide +kernel
  clear_value d
  have hline := (status_agrees_with_continuation d 3 (by decide) (by omega)).1
  have hspec := (status_agrees_with_continuation d 6 (by decide) hcount).2.2.2
  rw [h3] at hline
  rw [h6] at hspec
  exact ⟨h3, hline.symm, h6, hspec⟩

/-- After a statement that starts with a no-break space the anchor is that space, and not the first
visible character of the statement. -/
theorem status_anchor_before_first_visible :
    let d := Document.ofText "\u00a0x = 1\ny".toList
    d.status 2 = .afterLine 0 ∧ d.IsNearestAbove 2 1 ∧ d.buffer.firstVisible 1 = 2 ∧
    ¬ ∀ (d : Document) (line a : Nat), 2 ≤ line → line ≤ d.lineCount →
      d.status line = .afterLine a →
      ∃ start, d.IsNearestAbove line start ∧ a = d.buffer.firstVisible start := by
  intro d
  have hcount : 2 ≤ d.lineCount := by decide +kernel
  have hstatus : d.status 2 = .afterLine 0 := by decide +kernel
  have hvisible : d.buffer.firstVisible 1 = 2 := by decide +kernel
  clear_value d
  -- above the second line a statement can start on the first one only
  have hfirst : ∀ start, d.IsNearestAbove 2 start → start = 1 := by
    intro start h
    obtain ⟨hlo, hhi⟩ := h.startsCode.mem
    have hend := (Document.statementEnd_mem hlo hhi).1
    have habove := h.ends_above
    omega
  have hspec := Document.anchorSpec_status (Nat.le_refl 1) hcount
  rw [hstatus] at hspec
  obtain ⟨start, hnearest, -⟩ := hspec
  obtain rfl := hfirst start hnearest
  refine ⟨hstatus, hnearest, hvisible, fun hall => ?_⟩
  obtain ⟨start, h, hanchor⟩ := hall d 2 0 (Nat.le_refl 2) hcount hstatus
  rw [hfirst start h, hvisible] at hanchor
  cases hanchor

end Offside
