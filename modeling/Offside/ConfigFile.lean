import Offside.Files
import Offside.Settings
import Offside.Toml.Reader

/-!
# Configuration files

* `Config.ofToml`: the configuration that a TOML text describes; every field has a default, and
  unknown keys are ignored;
* `Config.searchPaths`: where the configuration of a file is looked for;
* `Config.load`: the configuration that applies to a file.
-/

namespace Offside

open Toml (Node Fields)

/-! ### Reading fields -/

/-- The fields of a section, in the order of its schema.  A section may also be written as an array
of its values, of which further ones are ignored; a date-time is a section without known fields. -/
def sectionFields (names : List String) : Node → Except Toml.Error Fields
  | .table _ fields => .ok fields
  | .array items => .ok (names.zip items)
  | .tables elements => .ok (names.zip (elements.map (Node.table .header)))
  | .dateTime _ => .ok []
  | _ => .error (.malformed "table")

/-- The section of a document with a given name. -/
def section? (document : Fields) (name : String) (names : List String) :
    Except Toml.Error Fields :=
  match document.get? name with
  | some node => sectionFields names node
  | none => .ok []

/-- The integer of a key, if it is there. -/
def integerField (fields : Fields) (key : String) (default : Int) : Except Toml.Error Int :=
  match fields.get? key with
  | some (.integer n) => .ok n
  | some _ => .error (.malformed "integer")
  | none => .ok default

/-- The truth value of a key, if it is there. -/
def booleanField (fields : Fields) (key : String) (default : Bool) : Except Toml.Error Bool :=
  match fields.get? key with
  | some (.boolean b) => .ok b
  | some _ => .error (.malformed "boolean")
  | none => .ok default

/-- The string that a node is. -/
def stringNode : Node → Except Toml.Error String
  | .string s => .ok s
  | _ => .error (.malformed "string")

/-- The strings of a key, if it is there. -/
def stringsField (fields : Fields) (key : String) (default : List String) :
    Except Toml.Error (List String) :=
  match fields.get? key with
  | some (.array items) => items.mapM stringNode
  | some _ => .error (.malformed "array of strings")
  | none => .ok default

namespace Config

/-- The configuration that the fields of a document describe. -/
def ofFields (document : Fields) : Except Toml.Error Config := do
  let base : Config := {}
  let i ← section? document "indent" ["unit", "tab_width", "guess_indent", "use_tabs"]
  let d ← section? document "dedent" ["keywords", "chained_handlers"]
  return {
    indent := {
      unit := ← integerField i "unit" base.indent.unit
      tabWidth := ← integerField i "tab_width" base.indent.tabWidth
      guessIndent := ← booleanField i "guess_indent" base.indent.guessIndent
      useTabs := ← booleanField i "use_tabs" base.indent.useTabs }
    dedent := {
      keywords := ← stringsField d "keywords" base.dedent.keywords
      chainedHandlers := ← booleanField d "chained_handlers" base.dedent.chainedHandlers } }

/-- The configuration that a TOML text describes, checked. -/
def ofToml (path : String) (text : Text) : Except ConfigError Config :=
  match Toml.parse text >>= ofFields with
  | .ok config => config.validate
  | .error e => .error (.parse path e.message)

/-- The place of a configuration below a directory. -/
def filePath : String := ".tugedit/config.toml"

/-- Where the configuration of a file is looked for: in its directory and those above it. -/
def searchPaths (file : String) : List String :=
  let directory := ((Path.parent? file).filter (!·.isEmpty)).getD "."
  (Path.ancestors directory).map (Path.join · filePath)

/-- The configuration in a file. -/
def read (lookup : String → Found) (path : String) : Except ConfigError Config :=
  match (lookup path).read with
  | .ok text => ofToml path text
  | .error reason => .error (.read path reason)

/-- The configuration that applies to a file: the one that is named, else the nearest one that is
found, else the one that holds without any. -/
def load (lookup : String → Found) (named : Option String) (file : String) :
    Except ConfigError Config :=
  match named with
  | some path => read lookup path
  | none =>
    match (searchPaths file).find? fun path => (lookup path).isFile with
    | some path => read lookup path
    | none => .ok {}

end Config

end Offside
