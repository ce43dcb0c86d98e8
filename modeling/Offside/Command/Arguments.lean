import Offside.Command.Run

/-!
# Command lines

A command line is a list of arguments: options of the program, the name of a command, and options of
the command.  An option is followed by its value or has it attached by an equals sign; what starts
with a dash is no value unless it is attached, and no option can be given twice.

* `Level`, `Level.read`: the options that can stand together, and their reading;
* `Request.parse`: what a command line asks for;
* `execute`: its exit status and output.
-/

namespace Offside

/-- What the value of an option has to be. -/
inductive ValueKind
  /-- A path, which is not empty. -/
  | path
  /-- Any text. -/
  | text
  /-- A number of 32 bits. -/
  | line
  /-- A number of 64 bits. -/
  | count
  /-- How much is to be logged. -/
  | logLevel
  /-- The name of a motion. -/
  | motion
  deriving DecidableEq, Repr

/-- Counts have 64 bits. -/
def countBound : Nat := 0x10000000000000000

/-- The number that the value of an option stands for. -/
def ValueKind.number? : ValueKind → String → Option Nat
  | .line, s => Text.nonnegative? lineBound s.toList
  | .count, s => Text.unsigned? countBound s.toList
  | _, _ => none

/-- Whether an option takes a value. -/
def ValueKind.accepts : ValueKind → String → Bool
  | .path, s => !s.isEmpty
  | .text, _ => true
  | .logLevel, s => ["trace", "debug", "info", "warn", "error"].contains s
  | .motion, s => (Motion.ofName? s).isSome
  | kind, s => (kind.number? s).isSome

/-- The options, flags and other arguments that can stand together. -/
structure Level where
  options : List (String × ValueKind)
  flags : List String := []
  /-- What the arguments without a name have to be, in their order. -/
  words : List ValueKind := []
  /-- Words that end the level. -/
  commands : List String := []

/-- The arguments that have been given. -/
structure Arguments where
  values : List (String × String) := []
  flags : List String := []
  words : List String := []
  deriving DecidableEq, Repr

/-- Why a command line is no request. -/
inductive Stop
  | usage
  | help
  | version
  deriving DecidableEq, Repr

namespace Arguments

/-- The value of an option. -/
def value? (a : Arguments) (name : String) : Option String :=
  (a.values.find? (·.1 == name)).map (·.2)

/-- The number that is the value of an option. -/
def number? (a : Arguments) (kind : ValueKind) (name : String) : Option Nat :=
  (a.value? name).bind kind.number?

/-- The arguments with the value of one more option. -/
def addValue (a : Arguments) (kind : ValueKind) (name value : String) : Except Stop Arguments :=
  if kind.accepts value && (a.value? name).isNone then
    .ok { a with values := a.values ++ [(name, value)] }
  else .error .usage

/-- The arguments with one more flag. -/
def addFlag (a : Arguments) (name : String) : Except Stop Arguments :=
  if a.flags.contains name then .error .usage else .ok { a with flags := a.flags ++ [name] }

/-- The arguments with one more that has no name. -/
def addWord (kinds : List ValueKind) (a : Arguments) (word : String) : Except Stop Arguments :=
  match kinds[a.words.length]? with
  | some kind =>
    if kind.accepts word then .ok { a with words := a.words ++ [word] } else .error .usage
  | none => .error .usage

end Arguments

/-- What an argument is by its form. -/
inductive ArgumentForm
  /-- Two dashes, after which no options are read. -/
  | separator
  /-- A name after two dashes, with the value that is attached to it. -/
  | long (name : String) (attached : Option String)
  /-- A letter after one dash. -/
  | short (letter : Char)
  /-- Any other argument. -/
  | word
  deriving DecidableEq, Repr

/-- The form of an argument.  A single dash is a word. -/
def ArgumentForm.of (argument : String) : ArgumentForm :=
  match argument.toList with
  | ['-', '-'] => .separator
  | '-' :: '-' :: rest =>
    let name := String.ofList (rest.takeWhile (· != '='))
    match rest.dropWhile (· != '=') with
    | _ :: value => .long name (some (String.ofList value))
    | [] => .long name none
  | '-' :: c :: _ => .short c
  | _ => .word

namespace Level

/-- What an option that asks about the program leads to.  Only the outermost level, which has
commands, can be asked for the version. -/
def inquiry (level : Level) (name : String) : Stop :=
  if name == "help" then .help
  else if name == "version" && !level.commands.isEmpty then .version
  else .usage

/-- The long name of a letter that asks about the program. -/
def longName (letter : Char) : String :=
  if letter = 'h' then "help" else if letter = 'V' then "version" else letter.toString

/-- What a request for help leads to, which may name one command. -/
def helpFor (level : Level) : List String → Stop
  | [] => .help
  | [name] => if name == "help" || level.commands.contains name then .help else .usage
  | _ => .usage

/-- Reads the arguments of a level.  What remains begins with the command that ends the level. -/
def read (level : Level) : List String → Arguments → Except Stop (Arguments × List String)
  | [], given => .ok (given, [])
  | argument :: rest, given =>
    match ArgumentForm.of argument with
    | .separator => do return (← rest.foldlM (Arguments.addWord level.words) given, [])
    | .short letter => .error (level.inquiry (longName letter))
    | .long name attached =>
      match level.options.lookup name, attached with
      | some kind, some value => do read level rest (← given.addValue kind name value)
      | some kind, none =>
        match rest with
        | value :: rest =>
          if ArgumentForm.of value = .word then do
            read level rest (← given.addValue kind name value)
          else .error .usage
        | [] => .error .usage
      | none, some _ => .error .usage
      | none, none =>
        if level.flags.contains name then do read level rest (← given.addFlag name)
        else .error (level.inquiry name)
    | .word =>
      if level.commands.contains argument then .ok (given, argument :: rest)
      else if !level.commands.isEmpty && argument == "help" then .error (level.helpFor rest)
      else do read level rest (← given.addWord level.words argument)

end Level

/-! ### Commands -/

/-- The options that can be given with every command. -/
def globalOptions : List (String × ValueKind) :=
  [("config", .path), ("indent-unit", .count), ("log-level", .logLevel)]

/-- A command by its name: the arguments that it takes besides the file, and what they ask for. -/
structure CommandForm where
  name : String
  options : List (String × ValueKind) := []
  flags : List String := []
  words : List ValueKind := []
  command? : Arguments → Option Command

/-- The level of a command. -/
def CommandForm.level (f : CommandForm) : Level :=
  { options := ("file", .path) :: f.options ++ globalOptions, flags := f.flags, words := f.words }

/-- A question about a line. -/
def lineForm (name : String) (query : Nat → Query) : CommandForm where
  name := name
  options := [("line", .line)]
  command? a := (a.number? .line "line").map fun l => .ask (query l)

/-- A question about a location. -/
def locationForm (name : String) (query : String → Query) : CommandForm where
  name := name
  options := [("at", .text)]
  command? a := (a.value? "at").map fun l => .ask (query l)

/-- A movement from a location. -/
def moveForm : CommandForm where
  name := "move"
  options := [("at", .text)]
  words := [.motion]
  command? a := do
    let motion ← Motion.ofName? (← a.words.head?)
    return .ask (.move motion (← a.value? "at"))

/-- Reindenting a region or the whole file. -/
def reindentForm : CommandForm where
  name := "reindent"
  options := [("start", .line), ("end", .line)]
  flags := ["write"]
  command? a :=
    some (.edit (.reindent (a.number? .line "start") (a.number? .line "end"))
      (a.flags.contains "write"))

/-- Shifting a region. -/
def shiftForm : CommandForm where
  name := "shift"
  options := [("start", .line), ("end", .line), ("count", .count)]
  flags := ["left", "write"]
  command? a := do
    let start ← a.number? .line "start"
    let stop ← a.number? .line "end"
    return .edit (.shift start stop (a.number? .count "count") (a.flags.contains "left"))
      (a.flags.contains "write")

/-- Lining up a dedent keyword. -/
def electricForm : CommandForm where
  name := "electric"
  options := [("line", .line)]
  flags := ["write"]
  command? a := do
    let line ← a.number? .line "line"
    return .edit (.electric line) (a.flags.contains "write")

/-- Guessing the indent unit. -/
def guessForm : CommandForm where
  name := "guess-indent"
  command? _ := some (.ask .guessIndent)

/-- All commands. -/
def commandForms : List CommandForm :=
  [lineForm "indent" .indent, lineForm "levels" .levels, locationForm "context" .context,
    locationForm "statement" (.bounds .statement), locationForm "block" (.bounds .block),
    locationForm "defun" (.bounds .definition), locationForm "defun-path" .definitionPath,
    lineForm "dedent-match" .dedentMatch, moveForm, reindentForm, shiftForm, electricForm,
    guessForm]

/-- The outermost level. -/
def programLevel : Level := { options := globalOptions, commands := commandForms.map (·.name) }

/-! ### Invocations -/

/-- The request that a command line makes.  An option that every command takes counts more after the
command than before it. -/
def Request.parse (arguments : List String) : Except Stop Request := do
  let (before, rest) ← programLevel.read arguments {}
  match rest with
  | [] => throw .usage
  | name :: rest =>
    match commandForms.find? (·.name == name) with
    | none => throw .usage
    | some form =>
      let (given, _) ← form.level.read rest {}
      match given.value? "file", form.command? given with
      | some file, some command =>
        return { file, command,
                 config := (given.value? "config").or (before.value? "config")
                 indentUnit := (given.number? .count "indent-unit").or
                   (before.number? .count "indent-unit") }
      | _, _ => throw .usage

/-- The exit status and output of a command line, and the file that is to be written. -/
structure Execution where
  exitCode : Nat
  output : String
  written : Option (String × Text) := none

/-- The name and version of the program. -/
def versionText : String := "tugedit 0.1.0\n"

/-- How the program is used. -/
def helpText : String :=
  "usage: tugedit [--config FILE] [--indent-unit N] [--log-level LEVEL] COMMAND --file FILE\n" ++
    "commands: " ++ ", ".intercalate (commandForms.map (·.name)) ++ "\n"

/-- What a command line leads to. -/
def execute (lookup : String → Found) (arguments : List String) : Execution :=
  match Request.parse arguments with
  | .error .usage => { exitCode := 2, output := "" }
  | .error .help => { exitCode := 0, output := helpText }
  | .error .version => { exitCode := 0, output := versionText }
  | .ok request =>
    match request.run lookup with
    | .ok outcome =>
      { exitCode := 0, output := outcome.response.toJson.pretty ++ "\n"
        written := outcome.written.map (request.file, ·) }
    | .error failure =>
      { exitCode := failure.exitCode, output := failure.toJson.pretty ++ "\n" }

end Offside
