import Offside.Text.Basic

/-!
# TOML documents

A document is a tree of tables, arrays and scalars.  A table remembers how it came to be, since this
decides what may still be added to it.

* `Node`, `Origin`, `Error`;
* `Node.descend`: changing a table that is named by a path;
* `Node.assign`, `Node.openTable`, `Node.appendTable`: what a line of a document does to the tree.
-/

namespace Offside.Toml

/-- Why a text is no TOML document. -/
inductive Error
  | malformed (expected : String)
  | duplicateKey (key : String)
  | notATable (key : String)
  | outOfRange (literal : String)
  | tooDeep
  deriving DecidableEq, Repr, Inhabited

/-- What is reported for a text that is no TOML document. -/
def Error.message : Error → String
  | .malformed expected => s!"expected {expected}"
  | .duplicateKey key => s!"duplicate key {key}"
  | .notATable key => s!"{key} is not a table"
  | .outOfRange literal => s!"{literal} is out of range"
  | .tooDeep => "nesting is too deep"

/-- How a table came to be. -/
inductive Origin
  /-- It has a header of its own, or is the document. -/
  | header
  /-- A header names a table in it. -/
  | implied
  /-- A dotted key names a value in it. -/
  | dotted
  /-- It is written as a value. -/
  | inline
  deriving DecidableEq, Repr, Inhabited

/-- A part of a document.  Floats and date-times are kept as they are written. -/
inductive Node
  | string (s : String)
  | integer (n : Int)
  | float (literal : String)
  | boolean (b : Bool)
  | dateTime (literal : String)
  | array (items : List Node)
  | table (origin : Origin) (fields : List (String × Node))
  /-- The tables of one name that have headers in double brackets. -/
  | tables (elements : List (List (String × Node)))
  deriving Inhabited, Repr

/-- The fields of a table. -/
abbrev Fields := List (String × Node)

/-- A change of a table. -/
abbrev Change := Origin → Fields → Except Error (Origin × Fields)

namespace Fields

/-- The value of a key. -/
def get? (fs : Fields) (key : String) : Option Node := (fs.find? (·.1 == key)).map (·.2)

/-- The fields with a value for a key, in its old place if there is one. -/
def put (fs : Fields) (key : String) (value : Node) : Fields :=
  if (fs.get? key).isSome then fs.map fun f => if f.1 == key then (key, value) else f
  else fs ++ [(key, value)]

end Fields

namespace Node

/-- Changes the table that a path names, starting from a table with the given origin and fields.
Missing tables on the way are added with origin `added`; the last of the tables of one name stands
for all of them.  A dotted key cannot go through a table that has a header. -/
def descend (added : Origin) (change : Change) : List String → Change
  | [], origin, fields => change origin fields
  | key :: path, origin, fields => do
    match fields.get? key with
    | none =>
      let (o, fs) ← descend added change path added []
      return (origin, fields.put key (.table o fs))
    | some (.table .inline _) => throw (.notATable key)
    | some (.table o fs) =>
      if added = .dotted ∧ o = .header then throw (.duplicateKey key)
      let (o, fs) ← descend added change path o fs
      return (origin, fields.put key (.table o fs))
    | some (.tables elements) =>
      let (_, fs) ← descend added change path .header (elements.getLast?.getD [])
      return (origin, fields.put key (.tables (elements.dropLast ++ [fs])))
    | some _ => throw (.notATable key)

/-- Gives a key that has no value yet a value in a table. -/
def assignField (key : String) (value : Node) : Change := fun origin fields =>
  if (fields.get? key).isSome then throw (.duplicateKey key)
  else return (origin, fields.put key value)

/-- Gives the dotted key made of `path` and `key` a value.  A dotted key adds only to tables that
dotted keys have made. -/
def assign (path : List String) (key : String) (value : Node) : Change :=
  if path.isEmpty then assignField key value
  else
    descend .dotted (fun origin fields =>
      if origin = .dotted then assignField key value origin fields
      else throw (.duplicateKey key)) path

/-- Opens the table that a header names; it must not have been opened before. -/
def openTable (path : List String) (key : String) : Change :=
  descend .implied (fun origin fields => do
    match fields.get? key with
    | none => return (origin, fields.put key (.table .header []))
    | some (.table .implied fs) => return (origin, fields.put key (.table .header fs))
    | some _ => throw (.duplicateKey key)) path

/-- Adds one more table to those that a header in double brackets names. -/
def appendTable (path : List String) (key : String) : Change :=
  descend .implied (fun origin fields => do
    match fields.get? key with
    | none => return (origin, fields.put key (.tables [[]]))
    | some (.tables elements) => return (origin, fields.put key (.tables (elements ++ [[]])))
    | some _ => throw (.duplicateKey key)) path

end Node

end Offside.Toml
