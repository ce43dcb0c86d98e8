import Offside.Statement.Basic

/-!
# Continuation lines of headers and assignments

Where the continuation lines of a statement are lined up, if its first line begins a block or
assigns to something.

* `operators`, `operatorTokens`: runs of operator characters cut into operators, longest first;
* `assignmentEnd?`: the end of the first assignment operator outside brackets;
* `Document.blockContinuation?`, `assignmentContinuation?`.
-/

namespace Offside

open Lexical

/-- The operators that assign. -/
def assignmentOperators : List String :=
  ["**=", "//=", ">>=", "<<=", "+=", "-=", "*=", "/=", "%=", "&=", "^=", "|=", "@=", "="]

/-- All operators, with longer ones before shorter ones. -/
def operators : List String :=
  ["**=", "//=", ">>=", "<<=", "...", "->", ":=", "==", "!=", "<=", ">=", "+=", "-=", "*=",
    "/=", "%=", "&=", "^=", "|=", "@=", "**", "//", "<<", ">>", "+", "-", "*", "/", "%", "@",
    "&", "|", "^", "~", "<", ">", "=", ":", "!", "."]

/-- The characters that operators are made of. -/
def isOperatorChar (c : Char) : Bool :=
  ['=', '+', '-', '*', '/', '%', '<', '>', '&', '^', '|', '@', '!', ':', '~', '.'].contains c

/-- The first listed operator at the start of a run, else its first character. -/
def operatorAt (run : Text) : Text :=
  match operators.find? fun o => o.toList.isPrefixOf run with
  | some o => o.toList
  | none => run.take 1

/-- At most `n` operators from the start of a run. -/
def operatorsFrom : Nat → Text → List Text
  | 0, _ => []
  | _ + 1, [] => []
  | n + 1, c :: cs =>
    let token := operatorAt (c :: cs)
    token :: operatorsFrom n ((c :: cs).drop token.length)

/-- A run of operator characters cut into operators. -/
def operatorTokens (run : Text) : List Text := operatorsFrom run.length run

/-- The runs of adjacent operator characters outside brackets, each with its offset. -/
def operatorRuns : List CodeChar → List (Nat × Text)
  | [] => []
  | c :: cs =>
    let runs := operatorRuns cs
    if c.depth = 0 ∧ isOperatorChar c.char then
      match runs with
      | (start, run) :: rest =>
        if start = c.offset + c.char.utf8Size then (c.offset, c.char :: run) :: rest
        else (c.offset, [c.char]) :: runs
      | [] => [(c.offset, [c.char])]
    else runs

/-- The end of the first assignment operator among tokens of which the first is at `start`. -/
def assignmentTokenEnd? (start : Nat) : List Text → Option Nat
  | [] => none
  | token :: rest =>
    if assignmentOperators.any (·.toList == token) then some (start + token.length)
    else assignmentTokenEnd? (start + token.length) rest

/-- The end of the first assignment operator outside brackets. -/
def assignmentEnd? (chars : List CodeChar) : Option Nat :=
  (operatorRuns chars).findSome? fun run => assignmentTokenEnd? run.1 (operatorTokens run.2)

namespace Document

/-- For a continuation line of a statement that begins a block: the offset of its keyword. -/
def blockContinuation? (d : Document) (line : Nat) : Option Nat :=
  let start := d.statementStart line
  if start ≠ line ∧ (blockKeyword? (d.buffer.lineText start)).isSome then
    some (d.buffer.indentationEnd start)
  else none

/-- For a continuation line of a statement whose first line assigns outside brackets and begins no
block: the offset of what follows the operator and the gap after it. -/
def assignmentContinuation? (d : Document) (line : Nat) : Option Nat :=
  let start := d.statementStart line
  let first := d.buffer.line start
  if start ≠ line ∧ (blockKeyword? first.body).isNone then
    (assignmentEnd? (d.codeCharsOfLines start first.stop)).map fun stop =>
      stop + ((first.body.dropBytes (stop - first.start)).takeWhile isGap).length
  else none

end Document

end Offside
