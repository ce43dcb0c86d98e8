import Offside.Statement.Basic

/-!
# The status of a line

Which rule decides the indentation of a line, and the offset from which that rule measures.

* `Status`, `Document.status`;
* `Document.endsWithColon`, `isBlockHeader`: statements that begin a block.
-/

namespace Offside

open Lexical

/-- The rule that decides the indentation of a line, with the offset that it goes by. -/
inductive Status
  /-- The first line, or one with nothing but blank lines and comments above it. -/
  | noIndent
  /-- In brackets; goes by the innermost open one. -/
  | insideParen (bracket : Nat)
  /-- In a string; goes by its start. -/
  | insideString (start : Nat)
  /-- After a line that ends in a backslash; goes by that line. -/
  | afterBackslash (previous : Nat)
  /-- The first line of a block; goes by its header. -/
  | afterBlockStart (header : Nat)
  /-- Any other line; goes by the statement before it. -/
  | afterLine (previous : Nat)
  deriving DecidableEq, Repr, Inhabited

namespace Status

/-- The name of a status. -/
def name : Status → String
  | .noIndent => "no_indent"
  | .insideParen _ => "inside_paren"
  | .insideString _ => "inside_string"
  | .afterBackslash _ => "after_backslash"
  | .afterBlockStart _ => "after_beginning_of_block"
  | .afterLine _ => "after_line"

/-- The offset that a status goes by. -/
def anchor? : Status → Option Nat
  | .noIndent => none
  | .insideParen a | .insideString a | .afterBackslash a | .afterBlockStart a | .afterLine a =>
    some a

/-- A status written as its name and anchor. -/
def text (s : Status) : String :=
  match s.anchor? with
  | some a => s.name ++ "@" ++ toString a
  | none => s.name

end Status

namespace Document

/-- Whether the last code character of the lines from `start` to `stop` is a colon outside
brackets.  White space and backslashes do not count. -/
def endsWithColon (d : Document) (start stop : Nat) : Bool :=
  let chars := (d.codeCharsOfLines start (d.buffer.lineEnd stop)).filter fun c =>
    !isWhiteSpace c.char && c.char != '\\'
  chars.getLast?.any fun c => c.char == ':' && c.depth == 0

/-- Whether the statement that holds a line is the header of a block: it starts with a block keyword
and ends with a colon. -/
def isBlockHeader (d : Document) (line : Nat) : Bool :=
  let start := d.statementStart line
  (blockKeyword? (d.buffer.lineText start)).isSome && d.endsWithColon start (d.statementEnd start)

/-- The status of a line with code above it that is no continuation. -/
def statusAfter (d : Document) (previous : Nat) : Status :=
  let start := d.statementStart previous
  let anchor := d.buffer.indentationEnd start
  if d.isBlockHeader start then .afterBlockStart anchor else .afterLine anchor

/-- The status of a line.  Brackets count before strings, and these before backslashes. -/
def status (d : Document) (line : Nat) : Status :=
  let line := d.buffer.clampLine line
  if line = 1 then .noIndent
  else
    let state := d.lineStartState line
    match state.innermostParen?, state.string? with
    | some bracket, _ => .insideParen bracket
    | none, some s => .insideString s.start
    | none, none =>
      if d.endsBackslash (line - 1) then .afterBackslash (d.buffer.lineStart (line - 1))
      else
        match d.previousCodeLine? line with
        | none => .noIndent
        | some previous => d.statusAfter previous

end Document

end Offside
