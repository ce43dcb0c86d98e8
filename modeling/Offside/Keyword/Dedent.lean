import Offside.Keyword.Block

/-!
# Dedent keywords

The keywords whose line stands level with the block that it continues, and the block keywords that
each of them can follow.
-/

namespace Offside

/-- Whether a character continues an identifier. -/
def isIdentifierChar (c : Char) : Bool := isAlphanumeric c || c == '_'

/-- Whether a text starts with `word` and the word ends there. -/
def startsWithWord (text word : Text) : Bool :=
  word.isPrefixOf text && !(text.drop word.length).head?.any isIdentifierChar

/-- A keyword whose line stands level with the block that it continues. -/
inductive DedentKeyword
  | else_
  | elif
  | except
  | finally_
  deriving DecidableEq, Repr, Inhabited

namespace DedentKeyword

/-- All dedent keywords. -/
def all : List DedentKeyword := [.else_, .elif, .except, .finally_]

/-- The spelling of a keyword. -/
def name : DedentKeyword → String
  | .else_ => "else"
  | .elif => "elif"
  | .except => "except"
  | .finally_ => "finally"

/-- The keyword with this spelling. -/
def ofName? (name : String) : Option DedentKeyword := all.find? fun k => k.name == name

/-- The keywords of the blocks that a dedent keyword can continue.  With chained handlers `except`
can also follow `except`, and `finally` can follow `try`. -/
def openers (chained : Bool) : DedentKeyword → List BlockKeyword
  | .elif => [.if_, .elif]
  | .else_ => [.if_, .elif, .except, .for_, .while_]
  | .except => if chained then [.try_, .except] else [.try_]
  | .finally_ => if chained then [.except, .else_, .try_] else [.except, .else_]

/-- Whether a dedent keyword can continue a block that starts with `opener`. -/
def closes (chained : Bool) (k : DedentKeyword) (opener : BlockKeyword) : Bool :=
  (k.openers chained).contains opener

/-- The first of the enabled keywords that a line starts with after white space. -/
def atLineStart? (enabled : List DedentKeyword) (line : Text) : Option DedentKeyword :=
  enabled.find? fun k => startsWithWord line.trimStart k.name.toList

end DedentKeyword

end Offside
