/-!
# Lexical states

What stands around a position of a source text: whether it lies in code, in a string or in a
comment, and which brackets are open there.

* `OpenString`: a string that has begun and not ended;
* `Zone`: code, string or comment;
* `State`: a zone with the stack of open brackets.
-/

namespace Offside.Lexical

/-- The number of quotes that open and close a string. -/
inductive Fence
  | single
  | triple
  deriving DecidableEq, Repr, Inhabited

/-- The number of quotes of a fence. -/
def Fence.length : Fence → Nat
  | .single => 1
  | .triple => 3

/-- A string that has begun and not ended.  It starts at the letters that qualify it, if there are
any before its first quote. -/
structure OpenString where
  quote : Char
  fence : Fence
  start : Nat
  deriving DecidableEq, Repr

/-- Where a position lies.  A comment is given by the offset of its `#`. -/
inductive Zone
  | code
  | string (s : OpenString)
  | comment (start : Nat)
  deriving DecidableEq, Repr, Inhabited

/-- The lexical state at a position: its zone, and the offsets of the open brackets, innermost
first. -/
structure State where
  zone : Zone := .code
  parens : List Nat := []
  deriving DecidableEq, Repr, Inhabited

namespace State

/-- The number of open brackets. -/
def depth (s : State) : Nat := s.parens.length

/-- The offset of the innermost open bracket. -/
def innermostParen? (s : State) : Option Nat := s.parens.head?

/-- The string that the position lies in. -/
def string? (s : State) : Option OpenString :=
  match s.zone with
  | .string open_ => some open_
  | _ => none

/-- The start of the comment that the position lies in. -/
def comment? (s : State) : Option Nat :=
  match s.zone with
  | .comment start => some start
  | _ => none

/-- Whether the position lies outside strings and comments. -/
def isCode (s : State) : Bool := s.zone == .code

/-- Whether the position lies in a string. -/
def inString (s : State) : Bool := s.string?.isSome

/-- The start of the string or comment around the position, else of the innermost open bracket. -/
def innermostStart? (s : State) : Option Nat :=
  match s.zone with
  | .string open_ => some open_.start
  | .comment start => some start
  | .code => s.innermostParen?

end State

end Offside.Lexical
