import Offside.Text.Class
import Offside.Text.Columns

/-!
# Keywords at the start of a line

What the first words of a physical line say about it.

* `BlockKeyword`, `blockKeyword?`: the keyword of a line that begins a block;
* `definedName?`: the name that a definition introduces;
* `isDecorator`, `isBlockEnder`: decorators, and statements after which control does not go on;
* `alignedKeywordEnd?`: keywords whose continuation lines are aligned past them.
-/

namespace Offside

/-- The keywords that begin a block. -/
inductive BlockKeyword
  | def_
  | class_
  | if_
  | elif
  | else_
  | try_
  | except
  | finally_
  | for_
  | while_
  | with_
  | match_
  | case_
  deriving DecidableEq, Repr, Inhabited

namespace BlockKeyword

/-- All block keywords. -/
def all : List BlockKeyword :=
  [.def_, .class_, .if_, .elif, .else_, .try_, .except, .finally_, .for_, .while_, .with_, .match_,
    .case_]

/-- The spelling of a keyword. -/
def name : BlockKeyword → String
  | .def_ => "def"
  | .class_ => "class"
  | .if_ => "if"
  | .elif => "elif"
  | .else_ => "else"
  | .try_ => "try"
  | .except => "except"
  | .finally_ => "finally"
  | .for_ => "for"
  | .while_ => "while"
  | .with_ => "with"
  | .match_ => "match"
  | .case_ => "case"

/-- The keyword with this spelling. -/
def ofWord? (word : Text) : Option BlockKeyword := all.find? fun k => k.name.toList == word

/-- Whether a word is a keyword only if a subject follows it. -/
def isSoft : BlockKeyword → Bool
  | .match_ | .case_ => true
  | _ => false

end BlockKeyword

/-- Spaces and tabs, which separate the words of a line. -/
def isGap (c : Char) : Bool := c == ' ' || c == '\t'

namespace Text

/-- The word at the start of a text. -/
def word (t : Text) : Text := t.takeWhile isWordChar

/-- The text after the word at its start. -/
def afterWord (t : Text) : Text := t.dropWhile isWordChar

/-- The text after the spaces and tabs at its start. -/
def afterGap (t : Text) : Text := t.dropWhile isGap

/-- Whether a text starts with a space or a tab. -/
def startsWithGap (t : Text) : Bool := t.head?.any isGap

/-- The text after a leading `async`, which has to be followed by a gap. -/
def afterAsync (t : Text) : Text :=
  if t.word == "async".toList && t.afterWord.startsWithGap then t.afterWord.afterGap else t

end Text

/-- Whether a text can be the subject of a soft keyword. -/
def isSubject (t : Text) : Bool :=
  match t with
  | [] => false
  | c :: _ => !(['=', '.', ',', ')', ']', '}', ':', ';', '#'].contains c)

/-- The block keyword that a line starts with, and the offset in the line just past the keyword and
the gap after it. -/
def blockKeywordEnd? (line : Text) : Option (BlockKeyword × Nat) :=
  let head := line.afterIndentation.afterAsync
  let rest := head.afterWord.afterGap
  match BlockKeyword.ofWord? head.word with
  | some k => if k.isSoft && !isSubject rest then none else some (k, line.size - rest.size)
  | none => none

/-- The block keyword that a line starts with. -/
def blockKeyword? (line : Text) : Option BlockKeyword := (blockKeywordEnd? line).map (·.1)

/-- The name that a line starting with `def` or `class` defines. -/
def definedName? (line : Text) : Option Text :=
  let head := line.afterIndentation.afterAsync
  let name := head.afterWord.afterGap.word
  if (head.word == "def".toList || head.word == "class".toList) && head.afterWord.startsWithGap &&
      name.head?.any (!isDecimalDigit ·) then
    some name
  else none

/-- Whether a line is a decorator. -/
def isDecorator (line : Text) : Bool := line.afterIndentation.head? == some '@'

/-- Whether control never goes on from a line to the next one. -/
def isBlockEnder (line : Text) : Bool :=
  ["return", "pass", "raise", "break", "continue"].any fun w =>
    w.toList == line.afterIndentation.word

/-- The offset in the line just past a leading `return`, `from` or `import` and the gap after it. -/
def alignedKeywordEnd? (line : Text) : Option Nat :=
  let head := line.afterIndentation
  if (["return", "from", "import"].any fun w => w.toList == head.word) &&
      head.afterWord.startsWithGap then
    some (line.size - head.afterWord.afterGap.size)
  else none

end Offside
