import Offside.Proofs.Guarded.Buffer
import Offside.Proofs.Lexical.Cache
import Offside.Proofs.Lexical.Grammar

/-!
# The guarded scanner

The scanner, evaluated with guards: it has no text before and after it at hand, but slices the text
at its own offset, looks ahead from there, and slices what stands before a quote for the letters that
qualify the string.  A scanner that stands at a boundary never faults and steps to the next boundary.

* `Guarded.step`: one character, with `repeats`, `stringStart`, `stepToken`, `stepString`, `stepCode`;
* `Guarded.advance`, `codeChars`: stretches of text, by the step lemma `step_append`;
* `Guarded.scannerAt`, `stateAt`, `lineStartState`, `codeCharsOfLines`: look-ups in a document.
-/

namespace Offside.Guarded

open Lexical
open Text (size IsBoundary)

/-! ### Looking around -/

/-- Whether three copies of a character start at an offset. -/
def repeats (t : Text) (here : Nat) (c : Char) : Guarded Bool := do
  return ((← sliceFrom t here).take 3).countP (· == c) == 3

/-- The offset at which a string begins whose first quote is at `quote`. -/
def stringStart (t : Text) (quote : Nat) : Guarded Nat := do
  let before ← slice t 0 quote
  let letters := (before.reverse.takeWhile isMarkChar).length
  let word ← sliceFrom before (← minus before.size letters)
  if isStringMark word.reverse then minus quote word.size else return quote

theorem repeats_append (p x : Text) (c : Char) :
    repeats (p ++ c :: x) (size p) c = pure (opensTriple c x) := by
  rw [repeats, sliceFrom_size, pure_bind]
  congr 1
  match x with
  | [] => simp [opensTriple]
  | [a] => cases h : a == c <;> simp [opensTriple, h]
  | a :: b :: _ =>
    cases ha : a == c <;> cases hb : b == c <;> simp_all [opensTriple]

theorem stringStart_append (p x : Text) :
    stringStart (p ++ x) (size p) = pure (Lexical.stringStart p.reverse (size p)) := by
  have hsize : size (p.reverse.takeWhile isMarkChar) = (p.reverse.takeWhile isMarkChar).length :=
    size_of_isMarkChar fun c hc => List.mem_takeWhile_imp hc
  have hword : (p.reverse.takeWhile isMarkChar).reverse <:+ p := by
    have hprefix := List.takeWhile_prefix isMarkChar (l := p.reverse)
    simpa using List.reverse_suffix.2 hprefix
  have hle : (p.reverse.takeWhile isMarkChar).length ≤ size p := by
    obtain ⟨u, hu⟩ := hword
    have hp := congrArg size hu
    rw [Text.size_append, Text.size_reverse, hsize] at hp
    omega
  have hslice := sliceFrom_of_isSuffix hword
  rw [Text.size_reverse, hsize] at hslice
  simp only [stringStart, slice_zero_size, pure_bind, minus_of_le hle, hslice, List.reverse_reverse,
    Text.size_reverse, hsize, ite_pure]
  rfl

/-! ### One character -/

/-- One character of an escape or fence that has been seen already. -/
def stepToken (s : Scanner) : Guarded Scanner := do
  let skip ← minus s.skip 1
  if skip = 0 && s.closePending then
    return { s.enter .code with skip := 0, closePending := false }
  else return { s with skip }

/-- One character of a string, which stands at offset `here`. -/
def stepString (t : Text) (here : Nat) (open_ : OpenString) (c : Char) (s : Scanner) :
    Guarded Scanner := do
  if c = '\\' then return { s with skip := escapeLength (← sliceFrom t s.offset) }
  else if c = '\n' ∧ open_.fence = .single then return s.enter .code
  else if c = open_.quote then
    match open_.fence with
    | .single => return s.enter .code
    | .triple =>
      if ← repeats t here c then return { s with skip := 2, closePending := true } else return s
  else return s

/-- One character of code, which stands at offset `here`. -/
def stepCode (t : Text) (here : Nat) (c : Char) (s : Scanner) : Guarded Scanner := do
  if c = '#' then return s.enter (.comment here)
  else if c = '\'' ∨ c = '"' then
    let start ← stringStart t here
    if ← repeats t here c then return { s.enter (.string ⟨c, .triple, start⟩) with skip := 2 }
    else return s.enter (.string ⟨c, .single, start⟩)
  else if c = '(' ∨ c = '[' ∨ c = '{' then
    return { s with state := { s.state with parens := here :: s.state.parens } }
  else if c = ')' ∨ c = ']' ∨ c = '}' then
    return { s with state := { s.state with parens := s.state.parens.tail } }
  else return s

/-- The scanner after one character, unless the text has ended. -/
def step (t : Text) (s : Scanner) : Guarded (Option Scanner) := do
  match ← sliceFrom t s.offset with
  | [] => return none
  | c :: _ =>
    let moved := s.moved c
    if 0 < s.skip then return some (← stepToken moved)
    else
      match s.state.zone with
      | .string open_ => return some (← stepString t s.offset open_ c moved)
      | .comment _ => return some (if c = '\n' then moved.enter .code else moved)
      | .code => return some (← stepCode t s.offset c moved)

theorem stepToken_eq {s : Scanner} (h : 0 < s.skip) : stepToken s = pure s.stepToken := by
  obtain ⟨n, hn⟩ := Nat.exists_eq_add_one.2 h
  simp [stepToken, Scanner.stepToken, hn]

variable {p x : Text} {c : Char} {s : Scanner}

theorem stepString_append (open_ : OpenString) (h : s.offset = size p + c.utf8Size) :
    stepString (p ++ c :: x) (size p) open_ c s = pure (s.stepString open_ c x) := by
  have hafter : sliceFrom (p ++ c :: x) s.offset = pure x := by
    have hslice := sliceFrom_size (p ++ [c]) x
    rwa [List.append_assoc, Text.size_append, Text.size_cons, Text.size_nil, Nat.add_zero,
      List.singleton_append, ← h] at hslice
  simp only [stepString, Scanner.stepString, hafter, repeats_append, pure_bind, ite_pure]
  cases open_.fence with
  | single => simp only [ite_pure]
  | triple => simp only [ite_pure]

theorem stepCode_append :
    stepCode (p ++ c :: x) (size p) c s = pure (s.stepCode (size p) p.reverse c x) := by
  simp only [stepCode, Scanner.stepCode, stringStart_append, repeats_append, pure_bind, ite_pure]

/-- A scanner before a character steps over it. -/
theorem step_append (h : s.offset = size p) :
    step (p ++ c :: x) s = pure (some (s.step p.reverse c x)) := by
  have hmoved : (s.moved c).offset = size p + c.utf8Size := by rw [Scanner.moved_offset, h]
  simp only [step, h, sliceFrom_size, pure_bind]
  rcases Nat.eq_zero_or_pos s.skip with hs | hs
  · rw [if_neg (by omega)]
    cases hz : s.state.zone with
    | code => simp only [Scanner.step_of_code hs hz, stepCode_append, pure_bind, h]
    | string o => simp only [Scanner.step_of_string hs hz, stepString_append o hmoved, pure_bind]
    | comment start => simp only [Scanner.step_of_comment hs hz]
  · rw [if_pos hs, Scanner.step_of_skip hs, stepToken_eq (by exact hs), pure_bind]

/-- A scanner at the end of the text does not step. -/
theorem step_end (h : s.offset = size p) : step p s = pure none := by
  have hslice := sliceFrom_size p []
  rw [List.append_nil] at hslice
  simp only [step, h, hslice, pure_bind]

/-! ### Stretches -/

/-- At most `n` steps, until the scanner is at or past `target` or the text ends. -/
def advance (t : Text) (target : Nat) : Nat → Scanner → Guarded Scanner
  | 0, s => pure s
  | n + 1, s => do
    if s.offset < target then
      match ← step t s with
      | none => return s
      | some next => advance t target n next
    else return s

/-- The scanner moved on to `target`. -/
def advanceTo (t : Text) (target : Nat) (s : Scanner) : Guarded Scanner :=
  advance t target (target - s.offset) s

/-- The code characters of at most `n` steps from the scanner up to `stop`, with depths counted from
`base`. -/
def codeChars (t : Text) (stop base : Nat) : Nat → Scanner → Guarded (List CodeChar)
  | 0, _ => pure []
  | n + 1, s => do
    if s.offset < stop then
      match ← sliceFrom t s.offset, ← step t s with
      | c :: _, some next =>
        let rest ← codeChars t stop base n next
        if s.isCode && next.state.isCode then
          return ⟨s.offset, c, (min s.state.depth next.state.depth : Nat) - (base : Int)⟩ :: rest
        else return rest
      | _, _ => return []
    else return []

/-- The offset after one more character. -/
theorem offset_step (h : s.offset = size p) (c : Char) (after : Text) :
    (s.step p.reverse c after).offset = size (p ++ [c]) := by
  rw [Scanner.step_offset, h, Text.size_append, Text.size_cons, Text.size_nil, Nat.add_zero]

/-- Each step takes at least one byte, so as many steps as there are bytes are enough. -/
theorem advance_append {target n : Nat} (h : s.offset = size p) (hn : target - s.offset ≤ n) :
    advance (p ++ x) target n s = pure (s.advance target p.reverse x) := by
  induction n generalizing p x s with
  | zero =>
    have hnot : ¬ s.offset < target := by omega
    cases x <;> simp only [advance, Scanner.advance, if_neg hnot]
  | succ n ih =>
    cases x with
    | nil => simp only [advance, Scanner.advance, List.append_nil, step_end h, pure_bind, ite_self]
    | cons c cs =>
      have hc := c.utf8Size_pos
      have hnext := ih (x := cs) (offset_step h c cs) (by rw [Scanner.step_offset]; omega)
      rw [List.append_assoc, List.singleton_append, List.reverse_append, List.reverse_singleton,
        List.singleton_append] at hnext
      simp only [advance, Scanner.advance, step_append h, pure_bind, hnext, ite_pure]

theorem codeChars_append {stop base n : Nat} (h : s.offset = size p) (hn : stop - s.offset ≤ n) :
    codeChars (p ++ x) stop base n s = pure (s.codeChars stop base p.reverse x) := by
  induction n generalizing p x s with
  | zero =>
    have hnot : ¬ s.offset < stop := by omega
    cases x <;> simp only [codeChars, Scanner.codeChars, if_neg hnot]
  | succ n ih =>
    cases x with
    | nil =>
      have hslice := sliceFrom_size p []
      rw [List.append_nil] at hslice
      simp only [codeChars, Scanner.codeChars, List.append_nil, step_end h, h, hslice, pure_bind,
        ite_self]
    | cons c cs =>
      have hc := c.utf8Size_pos
      have hnext := ih (x := cs) (offset_step h c cs) (by rw [Scanner.step_offset]; omega)
      have hslice : sliceFrom (p ++ c :: cs) s.offset = pure (c :: cs) := by
        rw [h, sliceFrom_size]
      rw [List.append_assoc, List.singleton_append, List.reverse_append, List.reverse_singleton,
        List.singleton_append] at hnext
      simp only [codeChars, Scanner.codeChars, step_append h, hslice, pure_bind, hnext, ite_pure]

theorem advanceTo_eq {t : Text} (target : Nat) (h : IsBoundary t s.offset) :
    advanceTo t target s = pure (s.advanceTo t target) := by
  obtain ⟨p, x, rfl, hp⟩ := Text.isBoundary_iff.1 h
  rw [advanceTo, advance_append hp (Nat.le_refl _), Scanner.advanceTo, hp, Text.takeBytes_size,
    Text.dropBytes_size]

theorem codeCharsOf_eq {t : Text} (stop : Nat) (h : IsBoundary t s.offset) :
    codeChars t stop s.state.depth (stop - s.offset) s = pure (s.codeCharsOf t stop) := by
  obtain ⟨p, x, rfl, hp⟩ := Text.isBoundary_iff.1 h
  rw [codeChars_append hp (Nat.le_refl _), Scanner.codeCharsOf, hp, Text.takeBytes_size,
    Text.dropBytes_size]

/-! ### Look-ups in a document -/

/-- The scanner at an offset. -/
def scannerAt (d : Document) (offset : Nat) : Guarded Scanner := do
  advanceTo d.text (← floor d.text offset) {}

/-- The lexical state before the character at an offset. -/
def stateAt (d : Document) (offset : Nat) : Guarded State := do
  return (← scannerAt d offset).state

/-- The lexical state at the start of a line. -/
def lineStartState (d : Document) (line : Nat) : Guarded State := do
  stateAt d (← lineStart d.buffer line)

/-- The code characters from the start of a line up to an offset. -/
def codeCharsOfLines (d : Document) (line stop : Nat) : Guarded (List CodeChar) := do
  let s ← scannerAt d (← lineStart d.buffer line)
  codeChars d.text stop s.state.depth (stop - s.offset) s

@[simp] theorem scannerAt_eq (d : Document) (offset : Nat) :
    scannerAt d offset = pure (d.scannerAt offset) := by
  rw [scannerAt, floor_eq, pure_bind, advanceTo_eq _ (Text.isBoundary_zero d.text), d.scannerAt_eq,
    Scanner.ofOffset]

@[simp] theorem stateAt_eq (d : Document) (offset : Nat) :
    stateAt d offset = pure (d.stateAt offset) := by
  rw [stateAt, scannerAt_eq, pure_bind, Document.stateAt]

@[simp] theorem lineStartState_eq (d : Document) (line : Nat) :
    lineStartState d line = pure (d.lineStartState line) := by
  rw [lineStartState, lineStart_eq, pure_bind, stateAt_eq, d.stateAt_eq, d.lineStartState_eq]

@[simp] theorem codeCharsOfLines_eq (d : Document) (line stop : Nat) :
    codeCharsOfLines d line stop = pure (d.codeCharsOfLines line stop) := by
  have hb := (Scanner.isOf_ofOffset d.text (d.buffer.lineStart line)).1
  rw [codeCharsOfLines, lineStart_eq, pure_bind, scannerAt_eq, pure_bind, d.scannerAt_eq,
    d.codeCharsOfLines_eq, Lexical.codeChars, codeCharsOf_eq stop hb]

end Offside.Guarded
