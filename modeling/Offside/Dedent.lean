import Offside.Status

/-!
# Matching dedent keywords

Which block a line that starts with `else`, `elif`, `except` or `finally` continues.

* `Document.dedentMatch?`: the header at the line's own column;
* `Document.electricMatch?`: the header that the line should be moved to.
-/

namespace Offside

namespace Document

/-- The enabled dedent keyword that a statement starts with at a line. -/
def dedentKeyword? (d : Document) (line : Nat) : Option DedentKeyword :=
  if d.buffer.hasLine line && d.statementStart line == line then
    DedentKeyword.atLineStart? d.settings.dedentKeywords (d.buffer.lineText line)
  else none

/-- Whether a keyword can continue the block that starts at a line. -/
def closes (d : Document) (k : DedentKeyword) (header : Nat) : Bool :=
  (blockKeyword? (d.buffer.lineText header)).any fun opener =>
    k.closes d.settings.chainedHandlers opener

/-- The header that the keyword at a line continues: the first statement above that is not deeper,
if it stands at the same column and the keyword can continue it. -/
def dedentMatch? (d : Document) (line : Nat) : Option Nat := do
  let keyword ← d.dedentKeyword? line
  let column := d.buffer.indentation line
  let header ← ((d.statementsAbove line).dropWhile fun l => column < d.buffer.indentation l).head?
  if d.buffer.indentation header = column ∧ d.closes keyword header then
    return d.buffer.indentationEnd header
  else none

/-- The first of the statements, listed upwards, that the keyword can continue and that is shallower
than `limit` and than all statements after it. -/
def electricSearch (d : Document) (keyword : DedentKeyword) : Nat → List Nat → Option Nat
  | _, [] => none
  | limit, line :: above =>
    let column := d.buffer.indentation line
    if column < limit then
      if d.closes keyword line then some (d.buffer.indentationEnd line)
      else if column = 0 then none
      else electricSearch d keyword column above
    else electricSearch d keyword limit above

/-- The header that a line with a dedent keyword and its colon should be lined up with. -/
def electricMatch? (d : Document) (line : Nat) : Option Nat := do
  let keyword ← d.dedentKeyword? line
  if d.endsWithColon line (d.statementEnd line) then
    d.electricSearch keyword (d.buffer.indentation line + 1) (d.statementsAbove line)
  else none

end Document

end Offside
