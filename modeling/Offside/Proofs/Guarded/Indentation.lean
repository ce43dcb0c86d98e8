import Offside.Dedent
import Offside.Guess
import Offside.Levels
import Offside.Proofs.Guarded.Assignment

/-!
# Guarded indentation

The indentation that a line should have, evaluated with guards: what follows an open bracket is sliced
from its line, the lines above a continuation line are found by taking one from its number, and the
levels of a line divide by the indent unit.

* `Guarded.insideParenColumn`, `afterBackslashColumn`, `columnFor`: the rules, for the status of a line;
* `Guarded.report`, `levels`: the report and the levels of a line;
* `Guarded.dedentMatch?`, `electricMatch?`, `guessIndentUnit?`: searches over statements.
-/

namespace Offside

open Lexical
open Text (size)

namespace Guarded

/-! ### After a statement or a backslash -/

/-- The column of a line after a statement that begins no block. -/
def afterLineColumn (d : Document) (line previous : Nat) : Guarded Nat := do
  let base ← indentationAt d.buffer previous
  return match DedentKeyword.atLineStart? d.settings.dedentKeywords (← lineText d.buffer line) with
    | some _ => base - d.indentUnit
    | none => base

/-- The last dot outside brackets of the statement that ends on a line. -/
def lastDot? (d : Document) (line : Nat) : Guarded (Option Nat) := do
  let chars ← codeCharsOfLines d (← statementStart d line) (← lineEnd d.buffer line)
  return ((chars.filter fun c => c.char == '.' && c.depth == 0).getLast?).map (·.offset)

/-- The column of a line that starts with a dot after a backslash. -/
def dotColumn (d : Document) (previous : Nat) : Guarded Nat := do
  match ← lastDot? d previous with
  | some dot => column d.buffer dot
  | none => return (← indentation d.buffer previous) + d.indentUnit

/-- The column past the keyword of the header that a line continues. -/
def headerColumn? (d : Document) (line : Nat) : Guarded (Option Nat) := do
  onSome (← blockContinuation? d line) fun header => do
    let headerLine := d.buffer.lineOfOffset header
    mapSome (← blockKeywordEnd? (← lineText d.buffer headerLine)) fun keyword => do
      column d.buffer ((← lineStart d.buffer headerLine) + keyword.2)

/-- The column of a line after a first backslash. -/
def firstBackslashColumn (d : Document) (previous anchor : Nat) : Guarded Nat := do
  let anchorLine := d.buffer.lineOfOffset anchor
  match alignedKeywordEnd? (← lineText d.buffer anchorLine) with
  | some stop => column d.buffer ((← lineStart d.buffer anchorLine) + stop)
  | none => return (← indentation d.buffer previous) + d.indentUnit

/-- Whether the line above ends in a backslash too. -/
def followsBackslash (d : Document) (previous : Nat) : Guarded Bool := do
  if 1 < previous then endsBackslash d (← minus previous 1) else return false

/-- The column of a line after a backslash. -/
def afterBackslashColumn (d : Document) (line anchor : Nat) : Guarded Nat := do
  let previous ← minus line 1
  if (← lineText d.buffer line).startsTrimmedWith ['.'] then dotColumn d previous
  else
    match ← headerColumn? d line with
    | some column => return column
    | none =>
      match ← assignmentContinuation? d line with
      | some target => column d.buffer target
      | none =>
        if ← followsBackslash d previous then indentation d.buffer previous
        else firstBackslashColumn d previous anchor

@[simp] theorem afterLineColumn_eq (d : Document) (line previous : Nat) :
    afterLineColumn d line previous = pure (d.afterLineColumn line previous) := by
  rw [afterLineColumn, indentationAt_eq, pure_bind, lineText_eq, pure_bind]
  rfl

@[simp] theorem lastDot?_eq (d : Document) (line : Nat) :
    lastDot? d line = pure (d.lastDot? line) := by
  simp only [lastDot?, statementStart_eq, lineEnd_eq, codeCharsOfLines_eq, pure_bind,
    Document.lastDot?]

@[simp] theorem dotColumn_eq (d : Document) (previous : Nat) :
    dotColumn d previous = pure (d.dotColumn previous) := by
  rw [dotColumn, lastDot?_eq, pure_bind, Document.dotColumn]
  cases d.lastDot? previous <;> simp

@[simp] theorem headerColumn?_eq (d : Document) (line : Nat) :
    headerColumn? d line = pure (d.headerColumn? line) := by
  simp only [headerColumn?, blockContinuation?_eq, lineText_eq, blockKeywordEnd?_eq, lineStart_eq,
    column_eq, pure_bind, mapSome_pure, onSome_pure, Document.headerColumn?]
  simp only [Option.map_eq_bind]
  rfl

@[simp] theorem firstBackslashColumn_eq (d : Document) (previous anchor : Nat) :
    firstBackslashColumn d previous anchor = pure (d.firstBackslashColumn previous anchor) := by
  rw [firstBackslashColumn, lineText_eq, pure_bind, Document.firstBackslashColumn]
  cases alignedKeywordEnd? (d.buffer.lineText (d.buffer.lineOfOffset anchor)) <;> simp

@[simp] theorem followsBackslash_eq (d : Document) (previous : Nat) :
    followsBackslash d previous = pure (decide (1 < previous ∧ d.endsBackslash (previous - 1))) := by
  rw [followsBackslash]
  split
  · next h => simp [minus_of_le (Nat.le_of_lt h), h]
  · next h => simp [h]

theorem afterBackslashColumn_eq (d : Document) {line : Nat} (h : 1 ≤ line) (anchor : Nat) :
    afterBackslashColumn d line anchor = pure (d.afterBackslashColumn line anchor) := by
  simp only [afterBackslashColumn, minus_of_le h, lineText_eq, dotColumn_eq, headerColumn?_eq,
    assignmentContinuation?_eq, followsBackslash_eq, indentation_eq, firstBackslashColumn_eq,
    pure_bind, Document.afterBackslashColumn]
  split
  · rfl
  · cases d.headerColumn? line with
    | some column => rfl
    | none => cases d.assignmentContinuation? line <;> simp

/-! ### In brackets -/

/-- Whether nothing but a comment follows an opening bracket. -/
def isHanging (afterOpen : Text) : Bool :=
  afterOpen.trimStart.isEmpty || afterOpen.trimStart.head? == some '#'

/-- The column that lines in brackets start at, given what follows the opening bracket. -/
def bracketColumn (d : Document) (bracket : Nat) (afterOpen : Text) : Guarded Nat := do
  if isHanging afterOpen then return (← indentationAt d.buffer bracket) + d.indentUnit
  else column d.buffer (bracket + 1 + (← minus afterOpen.size afterOpen.trimStart.size))

/-- The column of a line in brackets. -/
def insideParenColumn (d : Document) (line bracket : Nat) : Guarded Nat := do
  let openLine := d.buffer.lineOfOffset bracket
  let closer := (← lineText d.buffer line).startsTrimmedWith [')', ']', '}']
  let depth := (← lineStartState d line).depth
  let openDepth := (← lineStartState d openLine).depth
  if closer ∧ depth - 1 ≤ openDepth then indentation d.buffer openLine
  else
    let afterOpen ← slice d.text (bracket + 1) (← lineEnd d.buffer openLine)
    let base ← bracketColumn d bracket afterOpen
    let header ← blockKeyword? (← lineText d.buffer openLine)
    if closer then return base - d.indentUnit
    else return if isHanging afterOpen && header.isSome then base + d.indentUnit else base

theorem slice_of_bracket {d : Document} {line p : Nat}
    (hp : (d.lineStartState line).innermostParen? = some p) :
    slice d.text (p + 1) (d.buffer.lineEnd (d.buffer.lineOfOffset p)) =
      pure ((d.buffer.lineText (d.buffer.lineOfOffset p)).dropBytes
        (p + 1 - d.buffer.lineStart (d.buffer.lineOfOffset p))) := by
  obtain ⟨u, r, hbody, hstart⟩ := Document.exists_lineText_of_bracket hp
  rw [Document.text, hstart, slice_lineText hbody, hbody, Nat.add_sub_cancel_left,
    Text.dropBytes_size]

theorem size_trimStart_le (t : Text) : size t.trimStart ≤ size t := by
  obtain ⟨p, hp⟩ := List.dropWhile_suffix (l := t) isWhiteSpace
  have hsize := congrArg size hp
  rw [Text.size_append] at hsize
  rw [Text.trimStart]
  omega

@[simp] theorem bracketColumn_eq (d : Document) (bracket : Nat) (afterOpen : Text) :
    bracketColumn d bracket afterOpen = pure (if isHanging afterOpen then
        d.buffer.indentationAt bracket + d.indentUnit
      else d.buffer.column (bracket + 1 + (afterOpen.size - afterOpen.trimStart.size))) := by
  simp only [bracketColumn, indentationAt_eq, minus_of_le (size_trimStart_le afterOpen), column_eq,
    pure_bind, ite_pure]

theorem insideParenColumn_eq {d : Document} {line p : Nat}
    (hp : (d.lineStartState line).innermostParen? = some p) :
    insideParenColumn d line p = pure (d.insideParenColumn line p) := by
  simp only [insideParenColumn, lineText_eq, lineStartState_eq, indentation_eq, lineEnd_eq,
    slice_of_bracket hp, bracketColumn_eq, blockKeyword?_eq, pure_bind, ite_pure]
  rw [Document.insideParenColumn]
  by_cases hcloser : (d.buffer.lineText line).startsTrimmedWith [')', ']', '}'] = true
  · by_cases hdepth : (d.lineStartState line).depth - 1 ≤
        (d.lineStartState (d.buffer.lineOfOffset p)).depth
    · rw [if_pos ⟨hcloser, hdepth⟩, if_pos hcloser, if_pos hdepth]
    · rw [if_neg fun h => hdepth h.2, if_pos hcloser, if_pos hcloser, if_neg hdepth]
      rfl
  · rw [if_neg fun h => hcloser h.1, if_neg hcloser, if_neg hcloser]
    rfl

/-- What follows an offset that is no bracket cannot always be sliced. -/
example : insideParenColumn (Document.ofText "é".toList) 1 0 = throw (.slice 1 2) := by
  decide +kernel

/-! ### Reports and levels -/

/-- The column that a status gives to a line. -/
def columnFor (d : Document) (line : Nat) : Status → Guarded Nat
  | .noIndent => pure 0
  | .insideParen bracket => insideParenColumn d line bracket
  | .insideString start => indentationAt d.buffer start
  | .afterBackslash anchor => afterBackslashColumn d line anchor
  | .afterBlockStart header => return (← indentationAt d.buffer header) + d.indentUnit
  | .afterLine previous => afterLineColumn d line previous

/-- The indentation that a line should have, with the rule that decides it. -/
def report (d : Document) (line : Nat) : Guarded Report := do
  let line := d.buffer.clampLine line
  let status ← status d line
  return ⟨line, status, ← columnFor d line status⟩

/-- The stops from zero to an indentation in steps of a unit. -/
def stops (indentation unit : Nat) : Guarded (List Nat) := do
  if unit = 0 then return if indentation = 0 then [0] else [0, indentation]
  else
    let steps ← quotient indentation unit
    let multiples := (List.range (steps + 1)).map (· * unit)
    return if indentation = steps * unit then multiples else multiples ++ [indentation]

/-- The levels of a line in steps of a given unit. -/
def levelsBy (d : Document) (line unit : Nat) : Guarded Levels := do
  let stops ← stops (← report d line).indentation unit
  return ⟨stops, ← minus stops.length 1⟩

/-- The rules do not fault for the status of a line. -/
theorem columnFor_eq {d : Document} {line : Nat} (h : 1 ≤ line) (hle : line ≤ d.lineCount) :
    columnFor d line (d.status line) = pure (d.columnFor line (d.status line)) := by
  rcases Document.status_cases h hle with hstatus | ⟨bracket, hb, hstatus⟩ |
    ⟨s, -, hstatus⟩ | ⟨-, hstatus⟩ | ⟨start, -, -, hstatus | hstatus⟩
  · rw [hstatus]
    rfl
  · rw [hstatus, columnFor, insideParenColumn_eq hb, Document.columnFor]
  · rw [hstatus, columnFor, indentationAt_eq, Document.columnFor]
  · rw [hstatus, columnFor, afterBackslashColumn_eq d h, Document.columnFor]
  · rw [hstatus, columnFor, indentationAt_eq, pure_bind, Document.columnFor]
  · rw [hstatus, columnFor, afterLineColumn_eq, Document.columnFor]

@[simp] theorem report_eq (d : Document) (line : Nat) : report d line = pure (d.report line) := by
  obtain ⟨hone, hle⟩ := d.buffer.clampLine_mem line
  rw [report, status_eq, pure_bind, columnFor_eq hone hle, pure_bind, Document.report]

theorem stops_eq (indentation unit : Nat) :
    stops indentation unit = pure (Levels.ofIndentation indentation unit).stops := by
  rw [stops, Levels.ofIndentation]
  split
  · next h => simp [h]
  · next h => simp [quotient_of_pos (Nat.pos_of_ne_zero h)]

@[simp] theorem levelsBy_eq (d : Document) (line unit : Nat) :
    levelsBy d line unit = pure (d.levelsBy line unit) := by
  have hpos : 1 ≤ (Levels.ofIndentation (d.report line).indentation unit).stops.length := by
    rw [Levels.ofIndentation]
    dsimp only
    split <;> simp
  rw [levelsBy, report_eq, pure_bind, stops_eq, pure_bind, minus_of_le hpos, pure_bind]
  rfl

/-! ### Searches over statements -/

/-- The enabled dedent keyword that a statement starts with at a line. -/
def dedentKeyword? (d : Document) (line : Nat) : Guarded (Option DedentKeyword) := do
  if d.buffer.hasLine line && (← statementStart d line) == line then
    return DedentKeyword.atLineStart? d.settings.dedentKeywords (← lineText d.buffer line)
  else return none

/-- Whether a keyword can continue the block that starts at a line. -/
def closes (d : Document) (k : DedentKeyword) (header : Nat) : Guarded Bool := do
  return (← blockKeyword? (← lineText d.buffer header)).any fun opener =>
    k.closes d.settings.chainedHandlers opener

/-- The header that the keyword at a line continues. -/
def dedentMatch? (d : Document) (line : Nat) : Guarded (Option Nat) := do
  onSome (← dedentKeyword? d line) fun keyword => do
    let column ← indentation d.buffer line
    let above ← dropWhile (fun l => return decide (column < (← indentation d.buffer l)))
      (← statementsAbove d line)
    onSome above.head? fun header => do
      if (← indentation d.buffer header) = column ∧ (← closes d keyword header) then
        return some (← indentationEnd d.buffer header)
      else return none

/-- The first of the statements, listed upwards, that the keyword can continue and that is shallower
than `limit` and than all statements after it. -/
def electricSearch (d : Document) (keyword : DedentKeyword) : Nat → List Nat → Guarded (Option Nat)
  | _, [] => pure none
  | limit, line :: above => do
    let column ← indentation d.buffer line
    if column < limit then
      if ← closes d keyword line then return some (← indentationEnd d.buffer line)
      else if column = 0 then return none
      else electricSearch d keyword column above
    else electricSearch d keyword limit above

/-- The header that a line with a dedent keyword and its colon should be lined up with. -/
def electricMatch? (d : Document) (line : Nat) : Guarded (Option Nat) := do
  onSome (← dedentKeyword? d line) fun keyword => do
    if ← endsWithColon d line (← statementEnd d line) then
      electricSearch d keyword ((← indentation d.buffer line) + 1) (← statementsAbove d line)
    else return none

/-- How much deeper than the header at a line the first line of its body is, if this can be an indent
unit. -/
def bodyOffset? (d : Document) (header : Nat) : Guarded (Option Nat) := do
  onSome (← nextCodeLine? d (← statementEnd d header)) fun body => do
    let unit := (← indentation d.buffer body) - (← indentation d.buffer header)
    return if Document.isPlausibleUnit unit then some unit else none

/-- The indent unit of the first block from which one can be read off. -/
def guessIndentUnit? (d : Document) : Guarded (Option Nat) := do
  (← statementsAfter d 0).findSomeM? fun line => do
    if ← isBlockHeader d line then bodyOffset? d line else return none

@[simp] theorem dedentKeyword?_eq (d : Document) (line : Nat) :
    dedentKeyword? d line = pure (d.dedentKeyword? line) := by
  simp only [dedentKeyword?, statementStart_eq, lineText_eq, pure_bind, ite_pure,
    Document.dedentKeyword?]

@[simp] theorem closes_eq (d : Document) (k : DedentKeyword) (header : Nat) :
    closes d k header = pure (d.closes k header) := by
  rw [closes, lineText_eq, pure_bind, blockKeyword?_eq, pure_bind, Document.closes]

@[simp] theorem dedentMatch?_eq (d : Document) (line : Nat) :
    dedentMatch? d line = pure (d.dedentMatch? line) := by
  simp only [dedentMatch?, dedentKeyword?_eq, indentation_eq, statementsAbove_eq, dropWhile_pure,
    closes_eq, indentationEnd_eq, pure_bind, ite_pure, onSome_pure]
  rfl

@[simp] theorem electricSearch_eq (d : Document) (keyword : DedentKeyword) (limit : Nat)
    (above : List Nat) :
    electricSearch d keyword limit above = pure (d.electricSearch keyword limit above) := by
  induction above generalizing limit with
  | nil => rfl
  | cons line above ih =>
    simp only [electricSearch, indentation_eq, closes_eq, indentationEnd_eq, ih, pure_bind, ite_pure,
      Document.electricSearch]

@[simp] theorem electricMatch?_eq (d : Document) (line : Nat) :
    electricMatch? d line = pure (d.electricMatch? line) := by
  simp only [electricMatch?, dedentKeyword?_eq, statementEnd_eq, endsWithColon_eq, indentation_eq,
    statementsAbove_eq, electricSearch_eq, pure_bind, ite_pure, onSome_pure]
  rfl

@[simp] theorem bodyOffset?_eq (d : Document) (header : Nat) :
    bodyOffset? d header = pure (d.bodyOffset? header) := by
  simp only [bodyOffset?, statementEnd_eq, nextCodeLine?_eq, indentation_eq, pure_bind, onSome_pure]
  rfl

@[simp] theorem guessIndentUnit?_eq (d : Document) :
    guessIndentUnit? d = pure d.guessIndentUnit? := by
  simp only [guessIndentUnit?, statementsAfter_eq, isBlockHeader_eq, bodyOffset?_eq, pure_bind,
    ite_pure, List.findSomeM?_pure, Document.guessIndentUnit?]

end Guarded

end Offside
