import Offside.Proofs.Lexical.OpenConstructs

/-!
# A scanner with a string and a comment of its own

The zone of a scanner is code, a string or a comment, so it cannot be two of them at once.  A scanner
that keeps the string and the comment in two fields could be in both.  It sets and clears the fields
one at a time, by the same rules, and never is: a string or a comment is opened only where neither is
open, and what is skipped belongs to a string.

* `SplitScanner`, `SplitScanner.step`: a scanner with two fields;
* `Scanner.split`, `split_step`: the same step, field by field;
* `splitScanners_eq`: the same scanners of a text;
* `string?_eq_none_or_comment?_eq_none`: at most one of the fields is set.
-/

namespace Offside.Lexical

/-- A scanner that keeps the string and the comment that are open apart. -/
structure SplitScanner where
  offset : Nat := 0
  string? : Option OpenString := none
  comment? : Option Nat := none
  parens : List Nat := []
  skip : Nat := 0
  closePending : Bool := false
  deriving DecidableEq, Repr, Inhabited

namespace SplitScanner

/-- The scanner one character further on, otherwise unchanged. -/
def moved (s : SplitScanner) (c : Char) : SplitScanner :=
  { s with offset := s.offset + c.utf8Size }

/-- One character of an escape or fence that has been seen already. -/
def stepToken (s : SplitScanner) : SplitScanner :=
  let s := { s with skip := s.skip - 1 }
  if s.skip = 0 && s.closePending then { s with closePending := false, string? := none } else s

/-- One character of a string. -/
def stepString (open_ : OpenString) (c : Char) (after : Text) (s : SplitScanner) : SplitScanner :=
  if c = '\\' then { s with skip := escapeLength after }
  else if c = '\n' ∧ open_.fence = .single then { s with string? := none }
  else if c = open_.quote then
    match open_.fence with
    | .single => { s with string? := none }
    | .triple => if opensTriple c after then { s with skip := 2, closePending := true } else s
  else s

/-- One character of code at offset `here`. -/
def stepCode (here : Nat) (before : Text) (c : Char) (after : Text) (s : SplitScanner) :
    SplitScanner :=
  if c = '#' then { s with comment? := some here }
  else if c = '\'' ∨ c = '"' then
    if opensTriple c after then
      { s with skip := 2, string? := some ⟨c, .triple, stringStart before here⟩ }
    else { s with string? := some ⟨c, .single, stringStart before here⟩ }
  else if c = '(' ∨ c = '[' ∨ c = '{' then { s with parens := here :: s.parens }
  else if c = ')' ∨ c = ']' ∨ c = '}' then { s with parens := s.parens.tail }
  else s

/-- One character `c`, which stands between `before`, read backwards, and `after`.  An open string
counts before an open comment. -/
def step (before : Text) (c : Char) (after : Text) (s : SplitScanner) : SplitScanner :=
  if 0 < s.skip then (s.moved c).stepToken
  else
    match s.string?, s.comment? with
    | some open_, _ => (s.moved c).stepString open_ c after
    | none, some _ => if c = '\n' then { s.moved c with comment? := none } else s.moved c
    | none, none => (s.moved c).stepCode s.offset before c after

/-- The scanner after each step from here to the end of the text. -/
def trace (before : Text) : Text → SplitScanner → List SplitScanner
  | [], _ => []
  | c :: after, s =>
    let next := s.step before c after
    next :: trace (c :: before) after next

end SplitScanner

/-- The scanners of a text that keep strings and comments apart: the one at its beginning, and one
more after each step. -/
def splitScanners (text : Text) : List SplitScanner := {} :: SplitScanner.trace [] text {}

namespace Scanner

variable {before after : Text} {c : Char} {s : Scanner}

/-- A scanner with its zone as two fields. -/
def split (s : Scanner) : SplitScanner :=
  ⟨s.offset, s.state.string?, s.state.comment?, s.state.parens, s.skip, s.closePending⟩

theorem split_of_string {o : OpenString} (hz : s.state.zone = .string o) :
    s.split = ⟨s.offset, some o, none, s.state.parens, s.skip, s.closePending⟩ := by
  rw [split, State.string?, State.comment?, hz]

theorem split_of_comment {start : Nat} (hz : s.state.zone = .comment start) :
    s.split = ⟨s.offset, none, some start, s.state.parens, s.skip, s.closePending⟩ := by
  rw [split, State.string?, State.comment?, hz]

theorem split_of_code (hz : s.state.zone = .code) :
    s.split = ⟨s.offset, none, none, s.state.parens, s.skip, s.closePending⟩ := by
  rw [split, State.string?, State.comment?, hz]

/-! ### One step -/

/-- In a string only the string has to be cleared. -/
theorem split_stepToken {o : OpenString} (hs : 0 < s.skip) (hz : s.state.zone = .string o) :
    s.stepToken.split = s.split.stepToken := by
  rw [split_of_string hz, SplitScanner.stepToken]
  dsimp only
  by_cases hclose : s.skip = 1 ∧ s.closePending = true
  · rw [stepToken_of_close hclose, hclose.1, hclose.2]
    rfl
  · have hopen : ¬ (decide (s.skip - 1 = 0) && s.closePending) = true := by
      intro h
      rw [Bool.and_eq_true, decide_eq_true_eq] at h
      exact hclose ⟨by omega, h.2⟩
    rw [stepToken_of_not_close hclose, if_neg hopen]
    exact split_of_string (s := { s with skip := s.skip - 1 }) hz

theorem split_stepString {o : OpenString} (hz : s.state.zone = .string o) :
    (s.stepString o c after).split = s.split.stepString o c after := by
  rw [split_of_string hz]
  unfold stepString SplitScanner.stepString
  split
  · exact split_of_string (s := { s with skip := escapeLength after }) hz
  split
  · rfl
  split
  · cases o.fence with
    | single => rfl
    | triple =>
      dsimp only
      split
      · exact split_of_string (s := { s with skip := 2, closePending := true }) hz
      · exact split_of_string hz
  · exact split_of_string hz

/-- In code a string or a comment is opened while neither is open. -/
theorem split_stepCode (hz : s.state.zone = .code) (here : Nat) :
    (s.stepCode here before c after).split = s.split.stepCode here before c after := by
  rw [split_of_code hz]
  unfold stepCode SplitScanner.stepCode
  split
  · rfl
  split
  · split <;> rfl
  split
  · exact split_of_code (s := s.withParens (here :: s.state.parens)) hz
  split
  · exact split_of_code (s := s.withParens s.state.parens.tail) hz
  · exact split_of_code hz

/-- A step does the same to the two fields as to the zone. -/
theorem split_step (h : Reached before s) (c : Char) (after : Text) :
    (s.step before c after).split = s.split.step before c after := by
  have hmoved : s.split.moved c = (s.moved c).split := rfl
  unfold SplitScanner.step
  rw [hmoved]
  rcases Nat.eq_zero_or_pos s.skip with hs | hs
  · rw [if_neg (show ¬ 0 < s.split.skip from hs ▸ Nat.lt_irrefl 0)]
    cases hz : s.state.zone with
    | code =>
      rw [step_of_code hs hz, split_stepCode (s := s.moved c) hz, split_of_code hz]
    | string o =>
      rw [step_of_string hs hz, split_stepString (s := s.moved c) hz, split_of_string hz]
    | comment start =>
      rw [step_of_comment hs hz, split_of_comment hz, split_of_comment (s := s.moved c) hz]
      dsimp only
      split
      · rfl
      · exact split_of_comment (s := s.moved c) hz
  · -- what is skipped belongs to a string, so no comment is open that would have to be cleared
    obtain ⟨o, hz⟩ := h.skip hs
    rw [step_of_skip hs, split_stepToken (s := s.moved c) hs hz,
      if_pos (show 0 < s.split.skip from hs)]

/-! ### All steps -/

theorem map_split_trace (h : Reached before s) (text : Text) :
    (s.trace before text).map split = s.split.trace before text := by
  induction text generalizing before s with
  | nil => rfl
  | cons c after ih =>
    rw [trace, SplitScanner.trace, List.map_cons, ih (h.step c after), split_step h]

end Scanner

/-- The scanners that keep strings and comments apart are the scanners of the text, field by field. -/
theorem splitScanners_eq (text : Text) : splitScanners text = (scanners text).map Scanner.split := by
  rw [splitScanners, scanners, List.map_cons, Scanner.map_split_trace Reached.init]
  rfl

/-- A scanner that keeps strings and comments apart is never in both. -/
theorem string?_eq_none_or_comment?_eq_none {text : Text} {r : SplitScanner}
    (h : r ∈ splitScanners text) : r.string? = none ∨ r.comment? = none := by
  rw [splitScanners_eq, List.mem_map] at h
  obtain ⟨s, hs, rfl⟩ := h
  exact (Scanner.isValid_of_mem_scanners hs).exclusive

end Offside.Lexical
