import Offside.Status
import Offside.Statement.Assignment

/-!
# The indentation of a line

The column at which a line should start, by the rule that its status names.

* `Document.insideParenColumn`, `afterBackslashColumn`, `afterLineColumn`: the rules;
* `Document.report`: the status of a line with its column.
-/

namespace Offside

open Lexical

/-- Whether a text starts with one of these characters after white space. -/
def Text.startsTrimmedWith (t : Text) (cs : List Char) : Bool := t.trimStart.head?.any cs.contains

namespace Document

/-- The column of a line after a statement that begins no block: that of the statement, or one level
less for a dedent keyword. -/
def afterLineColumn (d : Document) (line previous : Nat) : Nat :=
  let base := d.buffer.indentationAt previous
  match DedentKeyword.atLineStart? d.settings.dedentKeywords (d.buffer.lineText line) with
  | some _ => base - d.indentUnit
  | none => base

/-- The last dot outside brackets of the statement that ends on a line. -/
def lastDot? (d : Document) (line : Nat) : Option Nat :=
  let chars := d.codeCharsOfLines (d.statementStart line) (d.buffer.lineEnd line)
  ((chars.filter fun c => c.char == '.' && c.depth == 0).getLast?).map (·.offset)

/-- The column of a line that starts with a dot after a backslash: under the last dot before it,
else one level deeper than the line before. -/
def dotColumn (d : Document) (previous : Nat) : Nat :=
  match d.lastDot? previous with
  | some dot => d.buffer.column dot
  | none => d.buffer.indentation previous + d.indentUnit

/-- The column past the keyword of the header that a line continues. -/
def headerColumn? (d : Document) (line : Nat) : Option Nat := do
  let header ← d.blockContinuation? line
  let headerLine := d.buffer.lineOfOffset header
  let keyword ← blockKeywordEnd? (d.buffer.lineText headerLine)
  return d.buffer.column (d.buffer.lineStart headerLine + keyword.2)

/-- The column of a line after a first backslash: past a keyword that aligns, else one level deeper
than the line before. -/
def firstBackslashColumn (d : Document) (previous anchor : Nat) : Nat :=
  let anchorLine := d.buffer.lineOfOffset anchor
  match alignedKeywordEnd? (d.buffer.lineText anchorLine) with
  | some stop => d.buffer.column (d.buffer.lineStart anchorLine + stop)
  | none => d.buffer.indentation previous + d.indentUnit

/-- The column of a line after a backslash.  A leading dot counts first, then a header, then an
assignment; further lines after that keep the column of the line before. -/
def afterBackslashColumn (d : Document) (line anchor : Nat) : Nat :=
  let previous := line - 1
  if (d.buffer.lineText line).startsTrimmedWith ['.'] then d.dotColumn previous
  else
    match d.headerColumn? line, d.assignmentContinuation? line with
    | some column, _ => column
    | none, some target => d.buffer.column target
    | none, none =>
      if 1 < previous ∧ d.endsBackslash (previous - 1) then d.buffer.indentation previous
      else d.firstBackslashColumn previous anchor

/-- The column of a line in brackets.  If nothing but a comment follows the opening bracket, its
line's indentation and one level; two in the header of a block.  Else the column of what follows
the bracket.  A closing bracket goes one level back from there, or to the indentation of the line
with the opening one if it closes all that was opened on it. -/
def insideParenColumn (d : Document) (line bracket : Nat) : Nat :=
  let b := d.buffer
  let openLine := b.lineOfOffset bracket
  let closer := (b.lineText line).startsTrimmedWith [')', ']', '}']
  let afterOpen := (b.lineText openLine).dropBytes (bracket + 1 - b.lineStart openLine)
  let rest := afterOpen.trimStart
  let hanging := rest.isEmpty || rest.head? == some '#'
  let base :=
    if hanging then b.indentation openLine + d.indentUnit
    else b.column (bracket + 1 + (afterOpen.size - rest.size))
  if closer then
    if (d.lineStartState line).depth - 1 ≤ (d.lineStartState openLine).depth then
      b.indentation openLine
    else base - d.indentUnit
  else if hanging && (blockKeyword? (b.lineText openLine)).isSome then base + d.indentUnit
  else base

end Document

/-- How the indentation of a line is decided. -/
structure Report where
  line : Nat
  status : Status
  indentation : Nat
  deriving DecidableEq, Repr, Inhabited

namespace Document

/-- The column that a status gives to a line. -/
def columnFor (d : Document) (line : Nat) : Status → Nat
  | .noIndent => 0
  | .insideParen bracket => d.insideParenColumn line bracket
  | .insideString start => d.buffer.indentationAt start
  | .afterBackslash anchor => d.afterBackslashColumn line anchor
  | .afterBlockStart header => d.buffer.indentationAt header + d.indentUnit
  | .afterLine previous => d.afterLineColumn line previous

/-- The indentation that a line should have, with the rule that decides it. -/
def report (d : Document) (line : Nat) : Report :=
  let line := d.buffer.clampLine line
  let status := d.status line
  ⟨line, status, d.columnFor line status⟩

/-- The indentation that a line should have. -/
def computedIndentation (d : Document) (line : Nat) : Nat := (d.report line).indentation

end Document

end Offside
