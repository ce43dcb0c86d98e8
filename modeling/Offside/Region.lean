import Offside.Dedent
import Offside.Levels

/-!
# Changing indentation

Edits that replace the indentation of lines.  Each of them is refused as a whole or made as a whole.

* `Document.setIndentation`: one line;
* `Document.shiftRight`, `shiftLeft`: a region by a number of columns;
* `Document.reindent`: a region by the computed columns;
* `Document.electricDedent`: a line with a dedent keyword;
* `Document.indentLine`: a line through its levels.
-/

namespace Offside

namespace Document

/-- The edit that gives a line `column` columns of indentation. -/
def indentationEdit (d : Document) (line column : Nat) : TextEdit :=
  ⟨⟨d.buffer.lineStart line, d.buffer.indentationEnd line⟩,
    indentString column d.settings.useTabs d.settings.tabWidth⟩

/-- Refuses a region that is inverted or leaves the document. -/
def checkRegion (d : Document) (start stop : Nat) : Except EditError Unit := do
  if stop < start then throw (.invalidRegion start stop)
  d.checkLine start
  d.checkLine stop

/-- The lines of a region that are not blank. -/
def regionLines (d : Document) (start stop : Nat) : List Nat :=
  (List.range' start (stop + 1 - start)).filter fun l => !d.buffer.isBlank l

/-- Gives a line `column` columns of indentation, and says whether this changed the text. -/
def setIndentation (d : Document) (line column : Nat) : Except EditError (Bool × Document) := do
  d.checkLine line
  let (changed, d) ← d.apply [d.indentationEdit line column]
  return (decide (0 < changed), d)

/-- Indents all lines of a region that are not blank by `count` columns, and counts the lines that
change. -/
def shiftRight (d : Document) (start stop : Nat) (count : Option Nat) :
    Except EditError (Nat × Document) := do
  d.checkRegion start stop
  let count := count.getD d.indentUnit
  d.apply ((d.regionLines start stop).map fun l =>
    d.indentationEdit l (d.buffer.indentation l + count))

/-- Dedents all lines of a region that are not blank by `count` columns, and counts the lines that
change.  A line that is indented less refuses the whole. -/
def shiftLeft (d : Document) (start stop : Nat) (count : Option Nat) :
    Except EditError (Nat × Document) := do
  d.checkRegion start stop
  let count := count.getD d.indentUnit
  let lines := d.regionLines start stop
  match lines.find? fun l => decide (d.buffer.indentation l < count) with
  | some l => throw (.shiftTooFar l (d.buffer.indentation l) count)
  | none => d.apply (lines.map fun l => d.indentationEdit l (d.buffer.indentation l - count))

/-- Whether a line follows a statement after which control does not go on, and does not start with a
dedent keyword. -/
def followsBlockEnder (d : Document) (line : Nat) : Status → Bool
  | .afterLine previous =>
    isBlockEnder (d.buffer.lineText (d.buffer.lineOfOffset previous)) &&
      (DedentKeyword.atLineStart? d.settings.dedentKeywords (d.buffer.lineText line)).isNone
  | _ => false

/-- The column that reindenting gives to a line: the computed one, but a line after the end of a
block may also stand further left. -/
def targetColumn (d : Document) (line : Nat) : Nat :=
  let report := d.report line
  if d.followsBlockEnder line report.status then
    min (d.buffer.indentation line) report.indentation
  else report.indentation

/-- Reindents one line, and says whether this changed the text.  Blank lines and lines that start in
a string are left alone. -/
def reindentLine (d : Document) (line : Nat) : Except EditError (Bool × Document) :=
  if d.buffer.isBlank line || (d.lineStartState line).inString then .ok (false, d)
  else d.setIndentation line (d.targetColumn line)

/-- Reindents lines one after the other, and counts the ones that change. -/
def reindentLines (d : Document) : List Nat → Except EditError (Nat × Document)
  | [] => .ok (0, d)
  | line :: rest => do
    let (changed, d) ← d.reindentLine line
    let (count, d) ← reindentLines d rest
    return (if changed then count + 1 else count, d)

/-- Reindents all lines of a region from top to bottom, and counts the ones that change. -/
def reindent (d : Document) (start stop : Nat) : Except EditError (Nat × Document) := do
  d.checkRegion start stop
  d.reindentLines (List.range' start (stop + 1 - start))

/-- Lines up a dedent keyword with the header that it continues, and says whether this changed the
text. -/
def electricDedent (d : Document) (line : Nat) : Except EditError (Bool × Document) := do
  d.checkLine line
  match d.electricMatch? line with
  | none => return (false, d)
  | some header => d.setIndentation line (d.buffer.indentationAt header)

end Document

/-- The levels that were last applied to a line, and the revision that this led to. -/
structure IndentCycle where
  line : Nat
  levels : Levels
  revision : Nat
  deriving DecidableEq, Repr, Inhabited

namespace Document

/-- The levels to apply to a line: the next ones of the cycle if it is about this line and nothing
has changed since, else those of the line as it is. -/
def nextLevels (d : Document) (line : Nat) (previous : Option IndentCycle) : Levels :=
  match previous with
  | some cycle =>
    if cycle.line = line ∧ cycle.revision = d.revision then cycle.levels.cycled else d.levels line
  | none => d.levels line

/-- Puts a line at one of its levels; a repeated request goes on to the next one. -/
def indentLine (d : Document) (line : Nat) (previous : Option IndentCycle) :
    Except EditError (IndentCycle × Document) := do
  d.checkLine line
  let levels := d.nextLevels line previous
  let (_, d) ← d.setIndentation line levels.level
  return (⟨line, levels, d.revision⟩, d)

end Document

end Offside
