import Offside.Toml.Scalar

/-!
# Reading TOML documents

* `value`: a value of any kind;
* `parse`: a document as the fields of its outermost table.
-/

namespace Offside.Toml

open Reader

/-! ### Values -/

/-- At most `n` items of an array, with blanks, comments and line ends between them, and the closing
bracket.  A comma may follow the last item. -/
def arrayItems (item : Reader Node) : Nat → Reader (List Node)
  | 0 => throw (.malformed "]")
  | n + 1 => do
    blankLines
    if ← tryWord "]" then return []
    let v ← item
    blankLines
    if ← tryWord "," then return v :: (← arrayItems item n)
    word "]"
    return [v]

/-- At most `n` fields of a table that is written as a value, and the closing brace, added to the
fields before them. -/
def inlineFields (item : Reader Node) : Nat → Fields → Reader Fields
  | 0, _ => throw (.malformed "closing brace")
  | n + 1, fields => do
    let (path, key) ← dottedKey
    word "="
    blanks
    let v ← item
    blanks
    let (_, fields) ← (Node.assign path key v .header fields : Except Error _)
    if ← tryWord "," then inlineFields item n fields
    else
      word "\x7d"
      return fields

/-- A table that is written as a value, after its opening brace. -/
def inlineTable (item : Reader Node) : Reader Node := do
  blanks
  if ← tryWord "\x7d" then return .table .inline []
  else return .table .inline (← inlineFields item ((← get).length + 1) [])

/-- A value whose items, if it has any, are read by `item?`; without it no value with items is
taken. -/
def valueWith (item? : Option (Reader Node)) : Reader Node := do
  if let some s ← string? then return .string s
  if ← tryWord "[" then
    let some item := item? | throw .tooDeep
    return .array (← arrayItems item ((← get).length + 1))
  if ← tryWord "\x7b" then
    let some item := item? | throw .tooDeep
    inlineTable item
  else if ← tryWord "true" then return .boolean true
  else if ← tryWord "false" then return .boolean false
  else if let some v ← dateTime? then return v
  else if let some v ← float? then return v
  else return .integer (← integer)

/-- A value in which at most `n` arrays and tables are nested. -/
def value : Nat → Reader Node
  | 0 => valueWith none
  | n + 1 => valueWith (some (value n))

/-! ### Documents -/

/-- A document being read: its fields so far, and the table that keys are added to. -/
structure Draft where
  fields : Fields := []
  current : List String := []

/-- Changes the table of a draft that keys are added to. -/
def Draft.changeCurrent (d : Draft) (change : Change) : Except Error Draft := do
  let (_, fields) ← Node.descend .implied change d.current .header d.fields
  return { d with fields }

/-- Opens the table of a header. -/
def Draft.openHeader (d : Draft) (path : List String) (key : String) (repeated : Bool) :
    Except Error Draft := do
  let change := if repeated then Node.appendTable path key else Node.openTable path key
  let (_, fields) ← change .header d.fields
  return { fields, current := path ++ [key] }

/-- One line of a document, or one value that goes over several lines. -/
def line (d : Draft) : Reader Draft := do
  if ← tryWord "[[" then
    let (path, key) ← dottedKey
    word "]]"
    lineEnd
    d.openHeader path key true
  else if ← tryWord "[" then
    let (path, key) ← dottedKey
    word "]"
    lineEnd
    d.openHeader path key false
  else
    let (path, key) ← dottedKey
    word "="
    blanks
    let v ← value (nestingLimit - 1)
    lineEnd
    d.changeCurrent (Node.assign path key v)

/-- At most `n` lines of a document. -/
def linesUpTo : Nat → Draft → Reader Draft
  | 0, d => return d
  | n + 1, d => do
    blankLines
    if (← get).isEmpty then return d else linesUpTo n (← line d)

/-- The text without a byte order mark at its start. -/
def withoutMark : Text → Text
  | c :: rest => if c.toNat = 0xFEFF then rest else c :: rest
  | [] => []

/-- The fields of a document. -/
def parse (text : Text) : Except Error Fields := do
  let (d, _) ← linesUpTo (text.length + 1) {} (withoutMark text)
  return d.fields

end Offside.Toml
