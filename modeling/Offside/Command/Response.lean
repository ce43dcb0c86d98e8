import Offside.Json
import Offside.Motion
import Offside.Region
import Offside.Settings

/-!
# Responses and failures

What a command answers, as data and as JSON.  Every response begins with its status and the version
of this format; positions carry a line and column counted from one as well as an offset.

* `Position`, `Answer`, `Response`;
* `Failure`: why a command has no answer, with its code, exit status and wording.
-/

namespace Offside

/-! ### Positions -/

/-- A position in a file. -/
structure Position where
  line : Nat
  column : Nat
  offset : Nat
  deriving DecidableEq, Repr, Inhabited

/-- The position of an offset, rounded down to a character boundary. -/
def Buffer.positionAt (b : Buffer) (offset : Nat) : Position :=
  let offset := b.floorBoundary offset
  ⟨(b.position offset).1, (b.position offset).2, offset⟩

open Json (Value)

namespace Position

/-- A position as JSON. -/
def toJson (p : Position) : Value :=
  .object [("line", .number p.line), ("col", .number p.column), ("offset", .number p.offset)]

end Position

/-- An optional value as JSON. -/
def optionJson (f : α → Value) : Option α → Value
  | some a => f a
  | none => .null

/-! ### Answers -/

/-- Which bounds are asked for. -/
inductive BoundsKind
  | statement
  | block
  | definition
  deriving DecidableEq, Repr, Inhabited

/-- The name of a kind of bounds. -/
def BoundsKind.name : BoundsKind → String
  | .statement => "statement"
  | .block => "block"
  | .definition => "defun"

/-- An edit of several lines. -/
inductive Operation
  | reindent
  | shiftLeft
  | shiftRight
  | electric
  deriving DecidableEq, Repr, Inhabited

/-- The name of an edit. -/
def Operation.name : Operation → String
  | .reindent => "reindent"
  | .shiftLeft => "shift-left"
  | .shiftRight => "shift-right"
  | .electric => "electric"

/-- The string around a position. -/
structure StringInfo where
  quote : Char
  fenceLength : Nat
  start : Position
  deriving DecidableEq, Repr

/-- A string around a position as JSON. -/
def StringInfo.toJson (s : StringInfo) : Value :=
  .object [("quote", .string s.quote.toString), ("fence_len", .number s.fenceLength),
    ("start", s.start.toJson)]

/-- What a command answers. -/
inductive Answer
  | indent (line : Nat) (status : Status) (anchor : Option Position) (indentation : Nat)
  | levels (line : Nat) (stops : Levels)
  | context (position : Position) (string : Option StringInfo) (comment : Option Position)
      (parens : List Position)
  | bounds (kind : BoundsKind) (start stop : Position)
  | definitionPath (position : Position) (path : List String)
  | dedentMatch (line : Nat) (opener : Position)
  | motion (kind : Motion) (origin target : Position)
  | regionEdit (operation : Operation) (start stop changed : Nat) (written : Bool)
      (text : Option Text)
  | guess (guessed : Option Nat) (unit : Nat)
  deriving DecidableEq, Repr

/-- The fields of an answer as JSON. -/
def Answer.fields : Answer → List (String × Value)
  | .indent line status anchor indentation =>
    [("line", .number line), ("context", .string status.name),
      ("anchor", optionJson Position.toJson anchor), ("indentation", .number indentation)]
  | .levels line stops =>
    [("line", .number line), ("levels", .array (stops.stops.map .number)),
      ("current", .number stops.current)]
  | .context position string comment parens =>
    [("position", position.toJson), ("in_string", optionJson StringInfo.toJson string),
      ("in_comment", optionJson Position.toJson comment), ("paren_depth", .number parens.length),
      ("paren_starts", .array (parens.map Position.toJson))]
  | .bounds kind start stop =>
    [("kind", .string kind.name),
      ("range", .object [("start", start.toJson), ("end", stop.toJson)])]
  | .definitionPath position path =>
    [("position", position.toJson), ("path", .array (path.map .string)),
      ("qualified_name", if path.isEmpty then .null else .string (".".intercalate path))]
  | .dedentMatch line opener => [("line", .number line), ("opener", opener.toJson)]
  | .motion kind origin target =>
    [("motion", .string kind.name), ("from", origin.toJson), ("to", target.toJson)]
  | .regionEdit operation start stop changed written text =>
    [("operation", .string operation.name), ("start_line", .number start),
      ("end_line", .number stop), ("lines_changed", .number changed), ("written", .bool written)] ++
      (match text with
        | some t => [("text", .string (String.ofList t))]
        | none => [])
  | .guess guessed unit =>
    [("guessed", optionJson .number guessed), ("indent_unit", .number unit)]

/-- The version of the format of responses. -/
def schemaVersion : String := "1"

/-- The answer of a command about a file. -/
structure Response where
  file : String
  answer : Answer
  deriving DecidableEq, Repr

/-- A response as JSON. -/
def Response.toJson (r : Response) : Value :=
  .object ([("status", .string "ok"), ("schema_version", .string schemaVersion),
    ("file", .string r.file)] ++ r.answer.fields)

/-! ### Failures -/

/-- Why a command has no answer. -/
inductive Failure
  | invalidArguments (message : String)
  | noResult (query : String) (line column : Nat)
  | fileNotFound (path : String)
  | config (e : ConfigError)
  | edit (e : EditError)
  | unreadable (reason : String)
  | internal (message : String)
  deriving DecidableEq, Repr

namespace Failure

/-- The code of a failure. -/
def code : Failure → String
  | .invalidArguments _ => "InvalidArguments"
  | .noResult .. => "NoResult"
  | .fileNotFound _ => "FileNotFound"
  | .config _ => "InvalidConfig"
  | .edit _ => "ApplyError"
  | .unreadable _ => "IoError"
  | .internal _ => "InternalError"

/-- The exit status of a failure: 2 for what the caller got wrong, 3 for a question without answer,
4 for an edit that does not apply, 10 for everything else. -/
def exitCode : Failure → Nat
  | .invalidArguments _ | .fileNotFound _ | .config _ => 2
  | .noResult .. => 3
  | .edit (.lineOutOfRange ..) | .edit (.invalidRegion ..) => 2
  | .edit _ => 4
  | .unreadable _ | .internal _ => 10

/-- What is reported for a failure. -/
def message : Failure → String
  | .invalidArguments message => s!"invalid arguments: {message}"
  | .noResult query line column => s!"no {query} at {line}:{column}"
  | .fileNotFound path => s!"file not found: {path}"
  | .config e => e.message
  | .edit e => e.message
  | .unreadable reason => s!"I/O error: {reason}"
  | .internal message => s!"internal error: {message}"

/-- A failure as JSON. -/
def toJson (f : Failure) : Value :=
  .object [("status", .string "error"), ("schema_version", .string schemaVersion),
    ("error", .object [("code", .string f.code), ("exit_code", .number f.exitCode),
      ("message", .string f.message)])]

end Failure

end Offside
