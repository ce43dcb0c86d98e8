import Offside.Text.Basic

/-!
# JSON texts

* `Json.Value`: the values that are written, with the fields of an object in order;
* `Json.Value.compact`: a value on one line;
* `Json.Value.pretty`: a value over several lines, two spaces deeper at each level.
-/

namespace Offside.Json

/-- A value to be written. -/
inductive Value
  | null
  | bool (b : Bool)
  | number (n : Nat)
  | string (s : String)
  | array (items : List Value)
  | object (fields : List (String × Value))
  deriving Inhabited, Repr

/-- A lower case hexadecimal digit. -/
def hexDigit (n : Nat) : Char := if n < 10 then Char.ofNat (48 + n) else Char.ofNat (87 + n)

/-- A character as it stands in a string.  Quotes, backslashes and control characters are escaped,
all others stand for themselves. -/
def escape (c : Char) : Text :=
  if c = '"' then ['\\', '"']
  else if c = '\\' then ['\\', '\\']
  else if c = '\x08' then ['\\', 'b']
  else if c = '\x0c' then ['\\', 'f']
  else if c = '\n' then ['\\', 'n']
  else if c = '\r' then ['\\', 'r']
  else if c = '\t' then ['\\', 't']
  else if c.toNat < 0x20 then
    ['\\', 'u', '0', '0', hexDigit (c.toNat / 16), hexDigit (c.toNat % 16)]
  else [c]

/-- A string in quotes. -/
def quoted (s : String) : String :=
  String.ofList ('"' :: (s.toList.flatMap escape ++ ['"']))

/-- Texts joined by a separator. -/
def joined (separator : String) (parts : List String) : String := separator.intercalate parts

namespace Value

mutual

/-- A value on one line. -/
def compact : Value → String
  | .null => "null"
  | .bool b => if b then "true" else "false"
  | .number n => toString n
  | .string s => quoted s
  | .array items => "[" ++ joined "," (compactItems items) ++ "]"
  | .object fields => "\x7b" ++ joined "," (compactFields fields) ++ "\x7d"

/-- The items of an array on one line. -/
def compactItems : List Value → List String
  | [] => []
  | v :: vs => compact v :: compactItems vs

/-- The fields of an object on one line. -/
def compactFields : List (String × Value) → List String
  | [] => []
  | (k, v) :: fs => (quoted k ++ ":" ++ compact v) :: compactFields fs

end

/-- The indentation of a level. -/
def margin (level : Nat) : String := String.ofList (List.replicate (2 * level) ' ')

/-- Parts between brackets, each on a line of its own at the given level. -/
def framed (opening closing : String) (level : Nat) (parts : List String) : String :=
  if parts.isEmpty then opening ++ closing
  else
    opening ++ "\n" ++ joined ",\n" (parts.map (margin (level + 1) ++ ·)) ++ "\n" ++ margin level ++
      closing

mutual

/-- A value over several lines, at a given level. -/
def prettyAt (level : Nat) : Value → String
  | .array items => framed "[" "]" level (prettyItems level items)
  | .object fields => framed "\x7b" "\x7d" level (prettyFields level fields)
  | .null => compact .null
  | .bool b => compact (.bool b)
  | .number n => compact (.number n)
  | .string s => compact (.string s)

/-- The items of an array at a given level. -/
def prettyItems (level : Nat) : List Value → List String
  | [] => []
  | v :: vs => prettyAt (level + 1) v :: prettyItems level vs

/-- The fields of an object at a given level. -/
def prettyFields (level : Nat) : List (String × Value) → List String
  | [] => []
  | (k, v) :: fs => (quoted k ++ ": " ++ prettyAt (level + 1) v) :: prettyFields level fs

end

/-- A value over several lines. -/
def pretty (v : Value) : String := prettyAt 0 v

end Value

end Offside.Json
