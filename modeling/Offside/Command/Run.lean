import Offside.Command.Response
import Offside.ConfigFile
import Offside.Guess
import Offside.Text.Numeral

/-!
# Commands

Each command opens one file as a document and answers one question about it or edits it.  A command
is a function of what stands at the paths that it looks up; an edit that is to be kept is part of
the outcome.

* `Query`, `Change`, `Command`, `Request`, `Outcome`;
* `parseLocation`: positions written as `line:col`;
* `Request.run`: the outcome of a request;
* `Tree.run`: a request in a working directory.
-/

namespace Offside

/-- A question about a file. -/
inductive Query
  | indent (line : Nat)
  | levels (line : Nat)
  | context (location : String)
  | bounds (kind : BoundsKind) (location : String)
  | definitionPath (location : String)
  | dedentMatch (line : Nat)
  | move (motion : Motion) (location : String)
  | guessIndent
  deriving DecidableEq, Repr

/-- A change of the indentation of a file. -/
inductive Change
  | reindent (start stop : Option Nat)
  | shift (start stop : Nat) (count : Option Nat) (left : Bool)
  | electric (line : Nat)
  deriving DecidableEq, Repr

/-- What is done with a file.  The text after a change is written to the file only on request. -/
inductive Command
  | ask (query : Query)
  | edit (change : Change) (write : Bool)
  deriving DecidableEq, Repr

/-- A command about a file, with the configuration file and the indent unit that are given for
it. -/
structure Request where
  file : String
  command : Command
  config : Option String := none
  indentUnit : Option Nat := none
  deriving DecidableEq, Repr

/-- The answer to a request, and the text that is to be written to its file. -/
structure Outcome where
  response : Response
  written : Option Text := none
  deriving DecidableEq, Repr

/-! ### Locations -/

/-- Lines and columns are counted in 32 bits. -/
def lineBound : Nat := 0x100000000

/-- The line and column of a location, both counted from one and separated by the first colon. -/
def location? (location : Text) : Option (Nat × Nat) :=
  match location.dropWhile (· != ':') with
  | [] => none
  | _ :: column => do
    let line ← Text.unsigned? lineBound (Text.trim (location.takeWhile (· != ':')))
    let column ← Text.unsigned? lineBound (Text.trim column)
    if line = 0 ∨ column = 0 then none else return (line, column)

/-- The line and column of a location, or the refusal of a malformed one. -/
def parseLocation (location : String) : Except Failure (Nat × Nat) :=
  match location? location.toList with
  | some p => .ok p
  | none => .error (.invalidArguments s!"invalid location '{location}', expected line:col")

namespace Document

/-- The offset of a location, whose line has to exist. -/
def offsetOf (d : Document) (location : String) : Except Failure Nat := do
  let (line, column) ← parseLocation location
  (d.checkLine line).mapError Failure.edit
  return d.buffer.offsetAt line column

/-- The position of an offset. -/
def positionAt (d : Document) (offset : Nat) : Position := d.buffer.positionAt offset

/-- The failure of a question that has no answer at an offset. -/
def noResult (d : Document) (query : String) (offset : Nat) : Failure :=
  .noResult query (d.buffer.position offset).1 (d.buffer.position offset).2

/-! ### Questions -/

/-- What stands around an offset. -/
def contextAnswer (d : Document) (offset : Nat) : Answer :=
  let state := d.stateAt offset
  .context (d.positionAt offset)
    (state.string?.map fun s => ⟨s.quote, s.fence.length, d.positionAt s.start⟩)
    (state.comment?.map d.positionAt) (state.parens.reverse.map d.positionAt)

/-- The span of a kind at an offset. -/
def boundsAt? (d : Document) (offset : Nat) : BoundsKind → Option Span
  | .statement => some (d.statementBounds offset)
  | .block => d.blockBounds? offset
  | .definition => d.definitionBounds? offset

/-- The answer to a question. -/
def ask (d : Document) : Query → Except Failure Answer
  | .indent line => do
    (d.checkLine line).mapError Failure.edit
    let report := d.report line
    return .indent line report.status (report.status.anchor?.map d.positionAt) report.indentation
  | .levels line => do
    (d.checkLine line).mapError Failure.edit
    return .levels line (d.levels line)
  | .context location => do
    let offset ← d.offsetOf location
    return d.contextAnswer offset
  | .bounds kind location => do
    let offset ← d.offsetOf location
    match d.boundsAt? offset kind with
    | some span => return .bounds kind (d.positionAt span.start) (d.positionAt span.stop)
    | none => throw (d.noResult kind.name offset)
  | .definitionPath location => do
    let offset ← d.offsetOf location
    return .definitionPath (d.positionAt offset) ((d.definitionPath offset).map String.ofList)
  | .dedentMatch line => do
    (d.checkLine line).mapError Failure.edit
    match d.dedentMatch? line with
    | some opener => return .dedentMatch line (d.positionAt opener)
    | none => throw (.noResult "dedent match" line 1)
  | .move motion location => do
    let offset ← d.offsetOf location
    match d.move offset motion with
    | some target => return .motion motion (d.positionAt offset) (d.positionAt target)
    | none => throw (d.noResult motion.name offset)
  | .guessIndent => return .guess d.guessIndentUnit? d.indentUnit

end Document

/-! ### Changes -/

/-- A change that has been made: its name, the lines that it was asked for, how many of them have
changed, and the document after it. -/
structure Edited where
  operation : Operation
  start : Nat
  stop : Nat
  changed : Nat
  document : Document

/-- Makes a change.  Without bounds the whole file is reindented. -/
def Document.perform (d : Document) : Change → Except EditError Edited
  | .reindent start? stop? => do
    let start := start?.getD 1
    let stop := stop?.getD d.lineCount
    let (changed, d) ← d.reindent start stop
    return ⟨.reindent, start, stop, changed, d⟩
  | .shift start stop count left => do
    if left then
      let (changed, d) ← d.shiftLeft start stop count
      return ⟨.shiftLeft, start, stop, changed, d⟩
    else
      let (changed, d) ← d.shiftRight start stop count
      return ⟨.shiftRight, start, stop, changed, d⟩
  | .electric line => do
    let (moved, d) ← d.electricDedent line
    return ⟨.electric, line, line, if moved then 1 else 0, d⟩

/-- The outcome of a change.  The text is written if this is asked for and anything has changed,
else it is part of the answer. -/
def Edited.outcome (e : Edited) (file : String) (write : Bool) : Outcome :=
  let written := write && e.document.revision != 0
  let text := e.document.text
  { response := ⟨file, .regionEdit e.operation e.start e.stop e.changed written
      (if written then none else some text)⟩
    written := if written then some text else none }

/-! ### Requests -/

namespace Request

/-- The document that a request is about. -/
def openDocument (lookup : String → Found) (r : Request) : Except Failure Document := do
  unless (lookup r.file).isFile do throw (.fileNotFound r.file)
  let text ← (lookup r.file).read.mapError Failure.unreadable
  let config ← (Config.load lookup r.config r.file).mapError Failure.config
  (Document.opened text config r.indentUnit).mapError Failure.config

/-- The outcome of a request. -/
def run (lookup : String → Found) (r : Request) : Except Failure Outcome := do
  let d ← r.openDocument lookup
  match r.command with
  | .ask query => return { response := ⟨r.file, ← d.ask query⟩ }
  | .edit change write =>
    let edited ← (d.perform change).mapError Failure.edit
    return edited.outcome r.file write

/-- All paths that a request may look up. -/
def paths (r : Request) : List String :=
  r.file :: (match r.config with
    | some path => [path]
    | none => Config.searchPaths r.file)

end Request

/-- The outcome of a request in a working directory, and the working directory after it. -/
def Tree.run (t : Tree) (r : Request) : Except Failure Response × Tree :=
  match r.run t.lookup with
  | .ok outcome =>
    (.ok outcome.response, match outcome.written with
      | some text => t.write r.file text
      | none => t)
  | .error failure => (.error failure, t)

end Offside
