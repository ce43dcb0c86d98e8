import Offside.Text.Basic
import Offside.Lexical.State

/-!
# The scanner

A machine that reads a source text one character at a time and keeps the lexical state before the
next one.

* A quote in code opens a string; three equal quotes open one that ends at three quotes again.  Up
  to two letters directly before the quote belong to the string.
* A backslash in a string escapes the next character, where a carriage return with its line feed
  counts as one.
* A string in single quotes also ends at a line feed that is not escaped.
* `#` in code opens a comment that ends with the line.
* Brackets of all three kinds share one stack; a closing bracket pops whatever is on top, and does
  nothing when no bracket is open.

A scanner never fails: at the end of the text it may be anywhere.

* `Scanner.step`: one character, seen between the text before it and the text after it;
* `Scanner.advance`, `Scanner.advanceTo`: on to an offset;
* `classify`: the state at an offset.
-/

namespace Offside.Lexical

/-- A scanner before the character at `offset`.  The next `skip` characters belong to an escape or
a fence that has been seen already; with `closePending` the string ends with the last of them. -/
structure Scanner where
  offset : Nat := 0
  state : State := {}
  skip : Nat := 0
  closePending : Bool := false
  deriving DecidableEq, Repr, Inhabited

/-- Whether a character can stand in the word before a quote. -/
def isMarkChar (c : Char) : Bool := c.isAlphanum || c == '_'

/-- Whether a word, read backwards from a quote, qualifies the string that begins there: one of the
letters `r`, `u`, `b`, `f`, or `r` together with `b` or `f`, in either case. -/
def isStringMark : Text → Bool
  | [a] => ['r', 'u', 'b', 'f'].contains a.toLower
  | [b, a] =>
    (a.toLower == 'r' && ['b', 'f'].contains b.toLower) ||
      (['b', 'f'].contains a.toLower && b.toLower == 'r')
  | _ => false

/-- The offset at which a string begins whose first quote is at `quote`, after the text `before`
read backwards. -/
def stringStart (before : Text) (quote : Nat) : Nat :=
  let word := before.takeWhile isMarkChar
  if isStringMark word then quote - word.length else quote

/-- The number of characters that a backslash takes from the text after it. -/
def escapeLength : Text → Nat
  | [] => 0
  | '\r' :: '\n' :: _ => 2
  | _ => 1

/-- Whether a character is followed by two more of its kind. -/
def opensTriple (c : Char) (after : Text) : Bool := after.take 2 == [c, c]

namespace Scanner

/-- Whether the scanner stands between tokens, with no escape or fence half read. -/
def atBoundary (s : Scanner) : Bool := s.skip == 0

/-- The scanner in another zone. -/
def enter (s : Scanner) (zone : Zone) : Scanner := { s with state := { s.state with zone } }

/-- One character of an escape or fence that has been seen already. -/
def stepToken (s : Scanner) : Scanner :=
  if s.skip = 1 && s.closePending then
    { s.enter .code with skip := 0, closePending := false }
  else
    { s with skip := s.skip - 1 }

/-- One character of a string. -/
def stepString (open_ : OpenString) (c : Char) (after : Text) (s : Scanner) : Scanner :=
  if c = '\\' then { s with skip := escapeLength after }
  else if c = '\n' ∧ open_.fence = .single then s.enter .code
  else if c = open_.quote then
    match open_.fence with
    | .single => s.enter .code
    | .triple => if opensTriple c after then { s with skip := 2, closePending := true } else s
  else s

/-- One character of code at offset `here`. -/
def stepCode (here : Nat) (before : Text) (c : Char) (after : Text) (s : Scanner) : Scanner :=
  if c = '#' then s.enter (.comment here)
  else if c = '\'' ∨ c = '"' then
    if opensTriple c after then
      { s.enter (.string ⟨c, .triple, stringStart before here⟩) with skip := 2 }
    else s.enter (.string ⟨c, .single, stringStart before here⟩)
  else if c = '(' ∨ c = '[' ∨ c = '{' then
    { s with state := { s.state with parens := here :: s.state.parens } }
  else if c = ')' ∨ c = ']' ∨ c = '}' then
    { s with state := { s.state with parens := s.state.parens.tail } }
  else s

/-- One character `c`, which stands between `before`, read backwards, and `after`. -/
def step (before : Text) (c : Char) (after : Text) (s : Scanner) : Scanner :=
  let moved := { s with offset := s.offset + c.utf8Size }
  if 0 < s.skip then moved.stepToken
  else
    match s.state.zone with
    | .string open_ => moved.stepString open_ c after
    | .comment _ => if c = '\n' then moved.enter .code else moved
    | .code => moved.stepCode s.offset before c after

/-- Steps until the scanner is at or past `target`, or the text ends.  The scanner stands between
`before`, read backwards, and the text that is still to be read. -/
def advance (target : Nat) (before : Text) : Text → Scanner → Scanner
  | [], s => s
  | c :: after, s =>
    if s.offset < target then advance target (c :: before) after (s.step before c after) else s

/-- The scanner of `text` moved on to `target`. -/
def advanceTo (text : Text) (target : Nat) (s : Scanner) : Scanner :=
  s.advance target (text.takeBytes s.offset).reverse (text.dropBytes s.offset)

/-- The scanner after each step from here to the end of the text. -/
def trace (before : Text) : Text → Scanner → List Scanner
  | [], _ => []
  | c :: after, s =>
    let next := s.step before c after
    next :: trace (c :: before) after next

/-- The scanner of `text` at an offset, rounded down to a boundary, started at the beginning. -/
def ofOffset (text : Text) (offset : Nat) : Scanner :=
  ({} : Scanner).advanceTo text (text.floorBoundary offset)

end Scanner

/-- The lexical state before the character at an offset. -/
def classify (text : Text) (offset : Nat) : State := (Scanner.ofOffset text offset).state

end Offside.Lexical
