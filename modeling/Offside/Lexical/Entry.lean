import Offside.Lexical.CodeChars

/-!
# Entries

The scanner as it enters each line of a text, with the text on either side.  From the entry of a
line the scanner at any offset of that line is reached without reading what comes before.
-/

namespace Offside.Lexical

/-- The scanner at the start of a line, between the text before it, read backwards, and the text
from there on. -/
structure Entry where
  scanner : Scanner
  before : Text
  after : Text
  deriving Inhabited

/-- The entries of the lines that start after the scanner. -/
def laterEntries (before : Text) : Text → Scanner → List Entry
  | [], _ => []
  | c :: after, s =>
    let next := s.step before c after
    if c = '\n' then ⟨next, c :: before, after⟩ :: laterEntries (c :: before) after next
    else laterEntries (c :: before) after next

/-- The entries of all lines of a text. -/
def entries (text : Text) : List Entry := ⟨{}, [], text⟩ :: laterEntries [] text {}

namespace Entry

/-- The scanner at an offset at or after the entry. -/
def scannerAt (e : Entry) (offset : Nat) : Scanner := e.scanner.advance offset e.before e.after

/-- The code characters from the entry up to `stop`. -/
def codeChars (e : Entry) (stop : Nat) : List CodeChar :=
  e.scanner.codeChars stop e.scanner.state.depth e.before e.after

end Entry

end Offside.Lexical
