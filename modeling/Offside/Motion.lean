import Offside.Block

/-!
# Motions

Movement from an offset to the neighbouring boundary of a statement, block or definition.

* `Motion`: the seven motions and their names;
* `Document.move`: where a motion leads.
-/

namespace Offside

/-- A movement over statements, blocks or definitions. -/
inductive Motion
  | forwardBlock
  | backwardBlock
  | upBlock
  | forwardStatement
  | backwardStatement
  | beginningOfDefinition
  | endOfDefinition
  deriving DecidableEq, Repr, Inhabited

namespace Motion

/-- All motions. -/
def all : List Motion :=
  [.forwardBlock, .backwardBlock, .upBlock, .forwardStatement, .backwardStatement,
    .beginningOfDefinition, .endOfDefinition]

/-- The name of a motion. -/
def name : Motion → String
  | .forwardBlock => "forward-block"
  | .backwardBlock => "backward-block"
  | .upBlock => "up-block"
  | .forwardStatement => "forward-statement"
  | .backwardStatement => "backward-statement"
  | .beginningOfDefinition => "beginning-of-defun"
  | .endOfDefinition => "end-of-defun"

/-- The motion with this name. -/
def ofName? (name : String) : Option Motion := all.find? fun m => m.name == name

end Motion

namespace Document

/-- The first header among the statements after line `after` and not after line `limit`. -/
def headerBetween? (d : Document) (after limit : Nat) : Option Nat :=
  ((d.statementsAfter after).takeWhile (· ≤ limit)).find? d.isBlockHeader

/-- The next header after line `after` in the innermost of the given blocks, else the end of that
block if it lies ahead, else the same for the block around it. -/
def forwardBlockIn (d : Document) (offset after : Nat) : List Nat → Option Nat
  | [] => (d.headerBetween? after d.lineCount).map d.buffer.indentationEnd
  | header :: around =>
    let limit := d.blockEnd header
    match d.headerBetween? after limit with
    | some line => some (d.buffer.indentationEnd line)
    | none =>
      if offset < d.buffer.lineEnd limit then some (d.buffer.lineEnd limit)
      else forwardBlockIn d offset limit around

/-- The next header in the block at an offset, else the end of that block, and so on outwards. -/
def forwardBlock (d : Document) (offset : Nat) : Option Nat :=
  match d.statementAt? offset with
  | none => d.forwardBlockIn offset (d.buffer.lineOfOffset offset - 1) []
  | some statement =>
    let around := d.enclosingHeaders statement
    d.forwardBlockIn offset (d.statementEnd statement)
      (if d.isBlockHeader statement then statement :: around else around)

/-- The start of the header at an offset, else the previous header in the block around it, else the
header of that block. -/
def backwardBlock (d : Document) (offset : Nat) : Option Nat := do
  let statement ← d.statementAt? offset
  let start := d.buffer.indentationEnd statement
  if start < offset && d.isBlockHeader statement then return start
  else
    let parent := (d.enclosingHeaders statement).head?
    let floor := parent.getD 0
    let above := (d.statementsAbove statement).takeWhile fun l => decide (floor < l)
    (above.find? d.isBlockHeader).or parent |>.map d.buffer.indentationEnd

/-- The header of the block around the statement at an offset. -/
def upBlock (d : Document) (offset : Nat) : Option Nat := do
  let statement ← d.statementAt? offset
  (d.enclosingHeaders statement).head?.map d.buffer.indentationEnd

/-- The start of the next statement. -/
def forwardStatement (d : Document) (offset : Nat) : Option Nat :=
  let line := d.buffer.lineOfOffset offset
  let next :=
    if d.isBlankOrComment line && d.statementStart line == line then d.nextCodeLine? line
    else d.nextStatement? line
  next.map d.buffer.indentationEnd

/-- The start of the statement at an offset, or of the one before it if the offset is there
already. -/
def backwardStatement (d : Document) (offset : Nat) : Option Nat := do
  let statement ← d.statementAt? offset
  let start := d.buffer.indentationEnd statement
  if start < offset then return start
  else (d.previousStatement? statement).map d.buffer.indentationEnd

/-- The start of the definition at an offset, or of the one before it if the offset is there
already. -/
def beginningOfDefinition (d : Document) (offset : Nat) : Option Nat := do
  let bounds ← d.definitionBounds? offset
  if bounds.start < offset then return bounds.start
  else
    match d.buffer.lineStart (d.buffer.lineOfOffset bounds.start) with
    | 0 => none
    | before + 1 =>
      let previous ← d.definitionBounds? before
      if previous.start < bounds.start then return previous.start else none

/-- The end of the definition at an offset, or of the next one if the offset is there already. -/
def endOfDefinition (d : Document) (offset : Nat) : Option Nat :=
  match (d.definitionBounds? offset).filter fun b => decide (offset < b.stop) with
  | some bounds => some bounds.stop
  | none =>
    ((d.statementsBelow (d.buffer.lineOfOffset offset)).find? d.isDefinition).map fun l =>
      d.buffer.lineEnd (d.blockEnd l)

/-- Where a motion leads from an offset. -/
def move (d : Document) (offset : Nat) : Motion → Option Nat
  | .forwardBlock => d.forwardBlock offset
  | .backwardBlock => d.backwardBlock offset
  | .upBlock => d.upBlock offset
  | .forwardStatement => d.forwardStatement offset
  | .backwardStatement => d.backwardStatement offset
  | .beginningOfDefinition => d.beginningOfDefinition offset
  | .endOfDefinition => d.endOfDefinition offset

end Document

end Offside
