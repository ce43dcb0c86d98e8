import Offside.Document

/-!
# Statements

A physical line continues onto the next one if a bracket or a string is still open after it, or if
it ends in a backslash.  Lines joined in this way form a statement.

* `Continuation`, `Document.continuation`: why a line continues;
* `Document.statementStart`, `statementEnd`: the lines of a statement;
* `Document.isBlankOrComment`, `previousCodeLine?`, `nextCodeLine?`: lines with code on them;
* `Document.statementsAbove`, `statementsAfter`: the statements on either side of a line.
-/

namespace Offside

/-- Why a line continues onto the next one. -/
inductive Continuation
  | paren
  | string
  | backslash
  deriving DecidableEq, Repr, Inhabited

namespace Document

/-- Whether a line ends in an odd number of backslashes that stand in code. -/
def endsBackslash (d : Document) (line : Nat) : Bool :=
  d.buffer.hasLine line &&
    ((d.buffer.lineText line).reverse.takeWhile (· == '\\')).length % 2 == 1 &&
    (d.stateAt (d.buffer.lineEnd line - 1)).isCode

/-- Why a line continues onto the next one, if it does: an open bracket counts before an open
string, and that before a backslash. -/
def continuation (d : Document) (line : Nat) : Option Continuation :=
  if d.buffer.hasLine line then
    let after := d.stateAt (d.buffer.nextLineStart line)
    if 0 < after.depth then some .paren
    else if after.inString then some .string
    else if d.endsBackslash line then some .backslash
    else none
  else none

/-- Whether a line continues onto the next one. -/
def continues (d : Document) (line : Nat) : Bool := (d.continuation line).isSome

/-- The first line of the lines that continue into `line`. -/
def startFrom (d : Document) : Nat → Nat
  | 0 => 0
  | 1 => 1
  | n + 2 => if d.continues (n + 1) then startFrom d (n + 1) else n + 2

/-- The first line of the statement that holds a line. -/
def statementStart (d : Document) (line : Nat) : Nat := d.startFrom (d.buffer.clampLine line)

/-- The last of at most `n` lines after `line` onto which it continues. -/
def endFrom (d : Document) : Nat → Nat → Nat
  | 0, line => line
  | n + 1, line => if d.continues line then endFrom d n (line + 1) else line

/-- The last line of the statement that holds a line. -/
def statementEnd (d : Document) (line : Nat) : Nat :=
  let line := d.buffer.clampLine line
  d.endFrom (d.lineCount - line) line

/-! ### Lines with code -/

/-- Whether a line is blank or holds only a comment; a line that starts in a string is neither. -/
def isBlankOrComment (d : Document) (line : Nat) : Bool :=
  (match (d.buffer.lineText line).trimStart with
    | [] => true
    | c :: _ => c == '#') &&
    !(d.lineStartState line).inString

/-- The nearest line above with code on it. -/
def previousCodeLine? (d : Document) : Nat → Option Nat
  | 0 => none
  | 1 => none
  | n + 2 => if d.isBlankOrComment (n + 1) then previousCodeLine? d (n + 1) else some (n + 1)

/-- The nearest line below with code on it. -/
def nextCodeLine? (d : Document) (line : Nat) : Option Nat :=
  (List.range' (line + 1) (d.lineCount - line)).find? fun l => !d.isBlankOrComment l

/-- The line itself if there is code on it, else the nearest one above. -/
def codeLineAtOrBefore? (d : Document) (line : Nat) : Option Nat :=
  if d.isBlankOrComment line then d.previousCodeLine? line else some line

/-! ### Neighbouring statements -/

/-- The first line of the statement before the one that starts at `line`. -/
def previousStatement? (d : Document) (line : Nat) : Option Nat :=
  (d.previousCodeLine? line).map d.statementStart

/-- The first line of the statement after the one that holds `line`. -/
def nextStatement? (d : Document) (line : Nat) : Option Nat :=
  d.nextCodeLine? (d.statementEnd line)

/-- The first lines of at most `n` statements above `line`, nearest first. -/
def aboveFrom (d : Document) : Nat → Nat → List Nat
  | 0, _ => []
  | n + 1, line =>
    match d.previousStatement? line with
    | none => []
    | some start => start :: aboveFrom d n start

/-- The first lines of the statements above `line`, nearest first. -/
def statementsAbove (d : Document) (line : Nat) : List Nat :=
  d.aboveFrom (min line d.lineCount) line

/-- The first lines of at most `n` statements after `line`, nearest first. -/
def afterFrom (d : Document) : Nat → Nat → List Nat
  | 0, _ => []
  | n + 1, line =>
    match d.nextCodeLine? line with
    | none => []
    | some start => start :: afterFrom d n (d.statementEnd start)

/-- The first lines of the statements after `line`, nearest first. -/
def statementsAfter (d : Document) (line : Nat) : List Nat := d.afterFrom (d.lineCount - line) line

/-- The first lines of the statements below the one that holds `line`, nearest first. -/
def statementsBelow (d : Document) (line : Nat) : List Nat :=
  d.statementsAfter (d.statementEnd line)

end Document

end Offside
