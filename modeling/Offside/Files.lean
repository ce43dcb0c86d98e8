import Offside.Text.Basic

/-!
# Files

What a command sees of the files around it.

* `Found`: what stands at a path;
* `Path.parent?`, `Path.join`, `Path.ancestors`: paths as texts;
* `Tree`: a working directory with its files;
* `Tree.resolve`: the place that a path leads to, part by part;
* `Tree.lookup`, `Tree.write`: reading and writing at a path.
-/

namespace Offside

/-- What stands at a path, or why nothing can be found there. -/
inductive Found
  /-- Nothing is there. -/
  | missing
  /-- The path goes on after a file. -/
  | notDirectory
  /-- The path or a name in it is too long. -/
  | nameTooLong
  /-- No path can hold this character. -/
  | nulInName
  | directory
  /-- A file that is no UTF-8 text. -/
  | undecodable
  | text (t : Text)
  deriving DecidableEq, Repr, Inhabited

namespace Found

/-- Whether a file stands at the path, readable as text or not. -/
def isFile : Found → Bool
  | .undecodable | .text _ => true
  | _ => false

/-- The text of a file, or what is reported if there is none. -/
def read : Found → Except String Text
  | .text t => .ok t
  | .undecodable => .error "stream did not contain valid UTF-8"
  | .missing => .error "No such file or directory (os error 2)"
  | .notDirectory => .error "Not a directory (os error 20)"
  | .directory => .error "Is a directory (os error 21)"
  | .nameTooLong => .error "File name too long (os error 36)"
  | .nulInName => .error "file name contained an unexpected NUL byte"

end Found

namespace Path

/-- The parts of a path between slashes, empty ones included. -/
def parts : Text → List Text
  | [] => [[]]
  | c :: cs =>
    if c = '/' then [] :: parts cs
    else
      match parts cs with
      | [] => [[c]]
      | p :: ps => (c :: p) :: ps

/-- Whether a part of a path stays where it is. -/
def isIdle (part : Text) : Bool := part.isEmpty || part == ['.']

/-- A path read backwards without the slashes and idle parts at its end.  The slash of the root and
a dot at the start of the path stay. -/
def trimEnd : Text → Text
  | ['/'] => ['/']
  | '/' :: rest => trimEnd rest
  | '.' :: '/' :: rest => if rest.isEmpty then ['/'] else trimEnd rest
  | rest => rest

/-- The directory that holds a path, which is the path without its last part. -/
def parent? (path : String) : Option String :=
  match trimEnd path.toList.reverse with
  | [] => none
  | ['/'] => none
  | last => some (String.ofList (trimEnd (last.dropWhile (· != '/'))).reverse)

/-- A path in a directory. -/
def join (directory name : String) : String :=
  if directory.isEmpty then name
  else if directory.endsWith "/" then directory ++ name
  else directory ++ "/" ++ name

/-- At most `n` directories from a path upwards. -/
def ancestorsUpTo : Nat → String → List String
  | 0, _ => []
  | n + 1, path =>
    path :: (match parent? path with
      | some directory => ancestorsUpTo n directory
      | none => [])

/-- A path and the directories above it, nearest first. -/
def ancestors (path : String) : List String := ancestorsUpTo (path.length + 1) path

end Path

/-- What is kept at a path of a working directory. -/
inductive TreeEntry
  | directory
  | undecodable
  | text (t : Text)
  deriving DecidableEq, Repr, Inhabited

/-- A working directory: the paths in it, relative to it, with what is kept there.  The directories
on the way to a path exist too. -/
abbrev Tree := List (String × TreeEntry)

/-- Where a path can lead: into the working directory, by the names on the way, or to a directory
around it. -/
inductive Place
  | around
  | within (names : List Text)
  deriving DecidableEq, Repr, Inhabited

/-- The directory above a place. -/
def Place.up : Place → Place
  | .around => .around
  | .within names => if names.isEmpty then .around else .within names.dropLast

/-- The number of bytes that a name can have. -/
def nameLimit : Nat := 255

/-- The number of bytes that a path has to stay below. -/
def pathLimit : Nat := 4096

namespace Tree

/-- The names of a listed path. -/
def names (path : String) : List Text := (Path.parts path.toList).filter (!Path.isIdle ·)

/-- Whether the names lead to a directory. -/
def isDirectory (t : Tree) (way : List Text) : Bool :=
  way.isEmpty || t.any fun e =>
    way.isPrefixOf (names e.1) && (names e.1 != way || e.2 == .directory)

/-- What stands at a place. -/
def content (t : Tree) : Place → Found
  | .around => .directory
  | .within way =>
    match t.find? fun e => names e.1 == way && e.2 != .directory with
    | some (_, .text s) => .text s
    | some _ => .undecodable
    | none => if t.isDirectory way then .directory else .missing

/-- Goes along the parts of a path.  Every part has to start from a directory, also one that stays
where it is; of the directories around the working directory no names are known. -/
def walk (t : Tree) : Place → List Text → Except Found Place
  | here, [] => .ok here
  | here, part :: rest =>
    match t.content here with
    | .directory =>
      if Path.isIdle part then walk t here rest
      else if part == ['.', '.'] then walk t here.up rest
      else if nameLimit < part.size then .error .nameTooLong
      else
        match here with
        | .around => .error .missing
        | .within way => walk t (.within (way ++ [part])) rest
    | .missing => .error .missing
    | _ => .error .notDirectory

/-- The place that a path leads to. -/
def resolve (t : Tree) (path : String) : Except Found Place :=
  if path.toList.contains '\x00' then .error .nulInName
  else if path.isEmpty then .error .missing
  else if pathLimit ≤ path.utf8ByteSize then .error .nameTooLong
  else
    t.walk (if path.toList.head? == some '/' then .around else .within [])
      (Path.parts path.toList)

/-- What stands at a path. -/
def lookup (t : Tree) (path : String) : Found :=
  match t.resolve path with
  | .ok place => t.content place
  | .error reason => reason

/-- The working directory after a text has been written to a file that exists. -/
def write (t : Tree) (path : String) (text : Text) : Tree :=
  match t.resolve path with
  | .ok (.within way) => t.map fun e => if names e.1 == way then (e.1, .text text) else e
  | _ => t

end Tree

end Offside
