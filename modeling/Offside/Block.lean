import Offside.Edit
import Offside.Status

/-!
# Blocks and definitions

A block is a header followed by all statements that are indented deeper than it.  A definition is a
block whose header defines a name, together with the decorators above it.  No tree is kept: every
question is answered by walking over the statements above or below a line.

* `Document.enclosingHeaders`: the headers around a statement, innermost first;
* `Document.blockEnd`: the last line of a block;
* `Document.statementBounds`, `blockBounds?`, `definitionBounds?`: spans at an offset;
* `Document.definitionPath`: the names of the definitions around an offset.
-/

namespace Offside

namespace Document

/-- The first line of the statement at an offset; on a blank line or a comment that of the statement
above it. -/
def statementAt? (d : Document) (offset : Nat) : Option Nat :=
  (d.codeLineAtOrBefore? (d.buffer.lineOfOffset offset)).map d.statementStart

/-- Whether a line is the header of a definition. -/
def isDefinition (d : Document) (line : Nat) : Bool :=
  (definedName? (d.buffer.lineText line)).isSome && d.isBlockHeader line

/-- The offset of the header of a block at a line. -/
def blockHeader? (d : Document) (line : Nat) : Option Nat :=
  let start := d.statementStart line
  if d.isBlockHeader start then some (d.buffer.indentationEnd start) else none

/-- The headers among statements, listed upwards, that enclose one at column `threshold`: each is
shallower than all statements after it.  A shallower statement that is no header ends the search. -/
def headersAround (d : Document) : Nat → List Nat → List Nat
  | _, [] => []
  | threshold, line :: above =>
    let column := d.buffer.indentation line
    if column < threshold then
      if d.isBlockHeader line then line :: headersAround d column above else []
    else headersAround d threshold above

/-- The lines of the headers around the statement at a line, innermost first. -/
def enclosingHeaders (d : Document) (line : Nat) : List Nat :=
  d.headersAround (d.buffer.indentation line) (d.statementsAbove line)

/-- The last line of the block headed at a line. -/
def blockEnd (d : Document) (header : Nat) : Nat :=
  let column := d.buffer.indentation header
  let body := (d.statementsBelow header).takeWhile fun l => column < d.buffer.indentation l
  d.statementEnd (body.getLast?.getD header)

/-! ### Bounds -/

/-- The span of the statement that holds an offset, from its first character after indentation to
the end of its last line. -/
def statementBounds (d : Document) (offset : Nat) : Span :=
  let line := d.buffer.lineOfOffset offset
  ⟨d.buffer.indentationEnd (d.statementStart line), d.buffer.lineEnd (d.statementEnd line)⟩

/-- The span from line `first` to the end of the block headed at `header`. -/
def blockSpan (d : Document) (first header : Nat) : Span :=
  ⟨d.buffer.indentationEnd first, d.buffer.lineEnd (d.blockEnd header)⟩

/-- The line of the header of the block that a statement belongs to: its own, if it is a header. -/
def blockOf? (d : Document) (statement : Nat) : Option Nat :=
  if d.isBlockHeader statement then some statement else (d.enclosingHeaders statement).head?

/-- The span of the block at an offset. -/
def blockBounds? (d : Document) (offset : Nat) : Option Span := do
  let header ← d.blockOf? (← d.statementAt? offset)
  return d.blockSpan header header

/-- The definition below decorators at column `column`, which has to be the first other
statement. -/
def definitionBelow? (d : Document) (column : Nat) : List Nat → Option Nat
  | [] => none
  | line :: below =>
    if d.buffer.indentation line ≠ column then none
    else if isDecorator (d.buffer.lineText line) then definitionBelow? d column below
    else if d.isDefinition line then some line
    else none

/-- The definition that a decorator at a line belongs to. -/
def decoratedDefinition? (d : Document) (line : Nat) : Option Nat :=
  d.definitionBelow? (d.buffer.indentation line) (d.statementsBelow line)

/-- The highest of at most `n` decorators that stand at column `column` directly above a line. -/
def decoratorsFrom (d : Document) (column : Nat) : Nat → Nat → Nat
  | 0, line => line
  | n + 1, line =>
    let above := d.statementStart (line - 1)
    if line ≤ 1 ∨ d.isBlankOrComment above ∨ d.buffer.indentation above ≠ column ∨
        !isDecorator (d.buffer.lineText above) then line
    else decoratorsFrom d column n above

/-- The first decorator of the definition at a line, or the line itself. -/
def firstDecorator (d : Document) (header : Nat) : Nat :=
  d.decoratorsFrom (d.buffer.indentation header) header header

/-- The header of the definition at an offset: the one that the statement there decorates, else the
statement itself, else the innermost one around it. -/
def definitionAt? (d : Document) (offset : Nat) : Option Nat := do
  let statement ← d.statementAt? offset
  let decorated :=
    if isDecorator (d.buffer.lineText statement) then d.decoratedDefinition? statement else none
  match decorated with
  | some header => some header
  | none =>
    if d.isDefinition statement then some statement
    else (d.enclosingHeaders statement).find? d.isDefinition

/-- The span of the definition at an offset, with its decorators. -/
def definitionBounds? (d : Document) (offset : Nat) : Option Span := do
  let header ← d.definitionAt? offset
  return d.blockSpan (d.firstDecorator header) header

/-- The names of the definitions around an offset, outermost first. -/
def definitionPath (d : Document) (offset : Nat) : List Text :=
  match d.definitionAt? offset with
  | none => []
  | some header =>
    let headers := header :: (d.enclosingHeaders header).filter d.isDefinition
    (headers.filterMap fun l => definedName? (d.buffer.lineText l)).reverse

end Document

end Offside
