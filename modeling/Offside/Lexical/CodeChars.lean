import Offside.Lexical.Scanner

/-!
# Code characters

The characters of a range that stand outside strings and comments, each with its bracket depth.
Quotes and the `#` of a comment are not among them: a character counts if the scanner is in code
both before and after it.
-/

namespace Offside.Lexical

/-- A character of code.  Its depth is counted from the start of the range; a bracket has the depth
outside of it. -/
structure CodeChar where
  offset : Nat
  char : Char
  depth : Int
  deriving DecidableEq, Repr, Inhabited

namespace Scanner

/-- Whether the scanner stands in code, between tokens. -/
def isCode (s : Scanner) : Bool := s.atBoundary && s.state.isCode

/-- The code characters from the scanner up to `stop`, with depths counted from `base`. -/
def codeChars (stop base : Nat) (before : Text) : Text → Scanner → List CodeChar
  | [], _ => []
  | c :: after, s =>
    if s.offset < stop then
      let next := s.step before c after
      let rest := codeChars stop base (c :: before) after next
      if s.isCode && next.state.isCode then
        ⟨s.offset, c, (min s.state.depth next.state.depth : Nat) - (base : Int)⟩ :: rest
      else rest
    else []

/-- The code characters of `text` from the scanner up to `stop`. -/
def codeCharsOf (text : Text) (stop : Nat) (s : Scanner) : List CodeChar :=
  s.codeChars stop s.state.depth (text.takeBytes s.offset).reverse (text.dropBytes s.offset)

end Scanner

/-- The code characters of a text from `start`, rounded down to a boundary, up to `stop`. -/
def codeChars (text : Text) (start stop : Nat) : List CodeChar :=
  (Scanner.ofOffset text start).codeCharsOf text stop

end Offside.Lexical
