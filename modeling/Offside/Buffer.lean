import Offside.Line

/-!
# Buffers

A buffer is a text with its line table and the tab width in which columns are counted.  Lines are
numbered from 1; a look-up by line takes the nearest existing line, so that 0 means the first line
and a number past the end means the last.

* look-ups by line: `lineStart`, `lineEnd`, `nextLineStart`, `lineText`, `indentation`, …;
* look-ups by offset: `lineOfOffset`, `column`, `position`, …;
* `offsetAt`: the offset of a line and column.
-/

namespace Offside

/-- The tab width of a buffer that is given none. -/
def defaultTabWidth : Nat := 8

/-- A text with its line table. -/
structure Buffer where
  text : Text
  tabWidth : Nat
  lines : Array Line := text.lines.toArray
  lines_eq : lines = text.lines.toArray := by rfl

namespace Buffer

/-- The buffer of a text; a tab width of zero counts as one. -/
def ofText (text : Text) (tabWidth : Nat) : Buffer :=
  { text, tabWidth := max tabWidth 1 }

/-- The same buffer with another text. -/
def withText (b : Buffer) (text : Text) : Buffer := { text, tabWidth := b.tabWidth }

/-- The number of bytes. -/
def size (b : Buffer) : Nat := b.text.size

/-- The number of lines, counting the empty line after a final line feed. -/
def lineCount (b : Buffer) : Nat := b.lines.size

/-- Whether a line of this number exists. -/
def hasLine (b : Buffer) (line : Nat) : Bool := 1 ≤ line && line ≤ b.lineCount

/-- The nearest number of an existing line. -/
def clampLine (b : Buffer) (line : Nat) : Nat := max 1 (min line b.lineCount)

/-- The line of this number, or the nearest one. -/
def line (b : Buffer) (line : Nat) : Line := b.lines.getD (b.clampLine line - 1) default

/-- The offset of the first character of a line. -/
def lineStart (b : Buffer) (line : Nat) : Nat := (b.line line).start

/-- The offset just past the body of a line. -/
def lineEnd (b : Buffer) (line : Nat) : Nat := (b.line line).stop

/-- The offset at which the next line starts, or the size of the buffer for the last line. -/
def nextLineStart (b : Buffer) (line : Nat) : Nat := (b.line line).next

/-- The text of a line without its terminator. -/
def lineText (b : Buffer) (line : Nat) : Text := (b.line line).body

/-- The number of the line that holds an offset; the last line holds all offsets past the end. -/
def lineOfOffset (b : Buffer) (offset : Nat) : Nat := b.lines.countP (·.start ≤ offset)

/-- The offset just past a line's indentation. -/
def indentationEnd (b : Buffer) (line : Nat) : Nat := (b.line line).indentationEnd

/-- The width of a line's indentation in columns. -/
def indentation (b : Buffer) (line : Nat) : Nat := (b.line line).indentation b.tabWidth

/-- The width of the indentation of the line that holds an offset. -/
def indentationAt (b : Buffer) (offset : Nat) : Nat := b.indentation (b.lineOfOffset offset)

/-- The column of an offset within its line, counted from zero. -/
def column (b : Buffer) (offset : Nat) : Nat :=
  ((b.line (b.lineOfOffset offset)).before offset).displayWidth b.tabWidth

/-- Whether a line holds nothing but white space. -/
def isBlank (b : Buffer) (line : Nat) : Bool := (b.lineText line).isBlank

/-- The line and column of an offset, both counted from one, the column in characters. -/
def position (b : Buffer) (offset : Nat) : Nat × Nat :=
  let line := b.lineOfOffset offset
  (line, ((b.line line).before offset).length + 1)

/-- The offset of a line and column; a column past the line's end means that end. -/
def offsetAt (b : Buffer) (line column : Nat) : Nat :=
  b.lineStart line + Text.size ((b.lineText line).take (column - 1))

/-- The text between two offsets, provided that these are boundaries in order. -/
def slice? (b : Buffer) (start stop : Nat) : Option Text := b.text.slice? start stop

/-- The largest character boundary at or before an offset. -/
def floorBoundary (b : Buffer) (offset : Nat) : Nat := b.text.floorBoundary offset

end Buffer

end Offside
