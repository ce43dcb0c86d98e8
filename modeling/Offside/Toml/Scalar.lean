import Offside.Toml.Node

/-!
# TOML scalars

Readers for the values that hold no other values, for keys and for what separates them.  A reader
takes what it reads off the front of the text.

* numbers: `integer`, `float?`, `dateTime?`;
* strings: `basicString`, `literalString` and their forms over several lines;
* keys: `dottedKey`.
-/

namespace Offside.Toml

/-- Reads something off the front of a text. -/
abbrev Reader := StateT Text (Except Error)

namespace Reader

/-- Takes the characters of a class off the front. -/
def takeWhile (p : Char → Bool) : Reader Text := fun t => .ok (t.takeWhile p, t.dropWhile p)

/-- Takes a word off the front if it is there. -/
def tryWord (word : String) : Reader Bool := fun t =>
  if word.toList.isPrefixOf t then .ok (true, t.drop word.length) else .ok (false, t)

/-- Takes a word off the front. -/
def word (w : String) : Reader Unit := do
  unless ← tryWord w do throw (.malformed w)

/-- The first character that is still to be read. -/
def peek? : Reader (Option Char) := do return (← get).head?

/-- Takes off what a partial reader of the text accepts, if anything. -/
def tryRead (read : Text → Option (α × Text)) : Reader (Option α) := fun t =>
  match read t with
  | some (a, rest) => .ok (some a, rest)
  | none => .ok (none, t)

end Reader

open Reader

/-! ### Between values -/

/-- Spaces and tabs. -/
def isBlankChar (c : Char) : Bool := c == ' ' || c == '\t'

/-- Whether a character can stand in a comment or a string: a tab, or anything but a control. -/
def isPlainChar (c : Char) : Bool := c == '\t' || (0x20 ≤ c.toNat && c.toNat != 0x7F)

/-- Skips spaces and tabs. -/
def blanks : Reader Unit := do let _ ← takeWhile isBlankChar

/-- Skips a comment, if there is one. -/
def comment : Reader Unit := do
  if (← peek?) == some '#' then let _ ← takeWhile isPlainChar

/-- Takes a line end off the front, if there is one. -/
def tryNewline : Reader Bool := do
  if ← tryWord "\n" then return true else tryWord "\r\n"

/-- Skips what may follow on the line of a header or a value, and the end of that line. -/
def lineEnd : Reader Unit := do
  blanks
  comment
  unless (← tryNewline) || (← get).isEmpty do throw (.malformed "line end")

/-- Skips at most `n` lines that are blank or hold a comment. -/
def blankLinesUpTo : Nat → Reader Unit
  | 0 => return
  | n + 1 => do
    blanks
    let commented := (← peek?) == some '#'
    comment
    if ← tryNewline then blankLinesUpTo n
    else if commented && !(← get).isEmpty then throw (.malformed "line end")

/-- Skips blanks, comments and line ends. -/
def blankLines : Reader Unit := do blankLinesUpTo ((← get).length + 1)

/-! ### Numbers -/

/-- Digits with single underscores between them; the underscores are left out. -/
def moreDigits (p : Char → Bool) : Text → Text × Text
  | '_' :: c :: cs =>
    if p c then let (ds, rest) := moreDigits p cs; (c :: ds, rest) else ([], '_' :: c :: cs)
  | c :: cs => if p c then let (ds, rest) := moreDigits p cs; (c :: ds, rest) else ([], c :: cs)
  | [] => ([], [])

/-- At least one digit, and more with single underscores between them. -/
def digits? (p : Char → Bool) : Text → Option (Text × Text)
  | c :: cs =>
    if p c then let (ds, rest) := moreDigits p cs; some (c :: ds, rest) else none
  | [] => none

/-- The value of a digit. -/
def digitValue (c : Char) : Nat :=
  if c.isDigit then c.toNat - '0'.toNat
  else if c.isLower then c.toNat - 'a'.toNat + 10
  else c.toNat - 'A'.toNat + 10

/-- The number that digits of a base stand for. -/
def ofDigits (base : Nat) (ds : Text) : Nat := ds.foldl (fun n c => n * base + digitValue c) 0

/-- A sign, if there is one; true for minus. -/
def sign : Text → Bool × Text
  | '+' :: rest => (false, rest)
  | '-' :: rest => (true, rest)
  | rest => (false, rest)

/-- A decimal number with a sign: no digit follows a leading zero. -/
def decimal? (t : Text) : Option ((Bool × Text) × Text) :=
  let (negative, rest) := sign t
  match rest with
  | '0' :: rest => some ((negative, ['0']), rest)
  | _ => (digits? Char.isDigit rest).map fun (ds, rest) => ((negative, ds), rest)

/-- Integers have 64 bits, so their sizes are bounded by this number. -/
def integerBound : Int := 0x8000000000000000

/-- An integer, unless it is out of range. -/
def checkedInteger (n : Int) : Except Error Int :=
  if -integerBound ≤ n ∧ n < integerBound then .ok n else .error (.outOfRange (toString n))

/-- An integer of a given base, after the mark of the base. -/
def integerOf (base : Nat) (p : Char → Bool) : Reader Int := do
  match ← tryRead (digits? p) with
  | some ds => checkedInteger (ofDigits base ds)
  | none => throw (.malformed "digit")

/-- An integer. -/
def integer : Reader Int := do
  if ← tryWord "0x" then
    integerOf 16 fun c => c.isDigit || ('a' ≤ c && c ≤ 'f') || ('A' ≤ c && c ≤ 'F')
  else if ← tryWord "0o" then integerOf 8 fun c => '0' ≤ c && c ≤ '7'
  else if ← tryWord "0b" then integerOf 2 fun c => c == '0' || c == '1'
  else
    match ← tryRead decimal? with
    | some (negative, ds) =>
      let n : Int := ofDigits 10 ds
      checkedInteger (if negative then -n else n)
    | none => throw (.malformed "value")

/-- The fraction of a float. -/
def fraction? : Text → Option (Text × Text)
  | '.' :: rest => digits? Char.isDigit rest
  | _ => none

/-- The exponent of a float. -/
def exponent? : Text → Option (Int × Text)
  | c :: rest =>
    if c == 'e' || c == 'E' then
      let (negative, rest) := sign rest
      (digits? Char.isDigit rest).map fun (ds, rest) =>
        let n : Int := ofDigits 10 ds
        (if negative then -n else n, rest)
    else none
  | [] => none

/-- The parts of a float: sign, digits, and the power of ten that they are multiplied by. -/
structure Decimal where
  negative : Bool
  digits : Nat
  exponent : Int

/-- A float in decimal notation; it has a fraction or an exponent or both. -/
def decimalFloat? (t : Text) : Option (Decimal × Text) := do
  let ((negative, whole), rest) ← decimal? t
  match fraction? rest with
  | some (part, rest) =>
    let digits := ofDigits 10 (whole ++ part)
    match exponent? rest with
    | some (e, rest) => return (⟨negative, digits, e - part.length⟩, rest)
    | none => return (⟨negative, digits, -part.length⟩, rest)
  | none =>
    let (e, rest) ← exponent? rest
    return (⟨negative, ofDigits 10 whole, e⟩, rest)

/-- Whether a float rounds to infinity in 64 bits: its size is at least `2 ^ 1024 - 2 ^ 970`.  The
number of its digits decides all but a few cases. -/
def Decimal.overflows (d : Decimal) : Bool :=
  let magnitude := (toString d.digits).length + d.exponent
  if d.digits = 0 ∨ magnitude < 300 then false
  else if 320 < magnitude then true
  else
    let bound := Nat.pow 2 1024 - Nat.pow 2 970
    if 0 ≤ d.exponent then bound ≤ d.digits * Nat.pow 10 d.exponent.toNat
    else bound * Nat.pow 10 (-d.exponent).toNat ≤ d.digits

/-- What has been read between a text and a rest of it. -/
def readText (t rest : Text) : String := String.ofList (t.take (t.length - rest.length))

/-- A float, if there is one.  A positive one must not round to infinity. -/
def float? : Reader (Option Node) := do
  let t ← get
  match decimalFloat? t with
  | some (d, rest) =>
    if d.overflows && !d.negative then throw (.outOfRange (readText t rest))
    set rest
    return some (.float (readText t rest))
  | none =>
    let (_, rest) := sign t
    if "inf".toList.isPrefixOf rest || "nan".toList.isPrefixOf rest then
      set (rest.drop 3)
      return some (.float (readText t (rest.drop 3)))
    else return none

/-! ### Date-times -/

/-- A number of exactly `n` digits. -/
def fixedDigits? (n : Nat) (t : Text) : Option (Nat × Text) :=
  let ds := t.take n
  if ds.length = n && ds.all Char.isDigit then some (ofDigits 10 ds, t.drop n) else none

/-- A number of two digits between bounds. -/
def twoDigits? (low high : Nat) (t : Text) : Option (Nat × Text) :=
  (fixedDigits? 2 t).filter fun r => decide (low ≤ r.1 ∧ r.1 ≤ high)

/-- The rest of a text after a character. -/
def after? (c : Char) : Text → Option Text
  | d :: rest => if c = d then some rest else none
  | [] => none

/-- The number of days of a month. -/
def daysIn (year month : Nat) : Nat :=
  if month = 2 then
    if year % 4 = 0 ∧ (year % 100 ≠ 0 ∨ year % 400 = 0) then 29 else 28
  else if month = 4 ∨ month = 6 ∨ month = 9 ∨ month = 11 then 30
  else 31

/-- The rest of a text after a date. -/
def afterDate? (t : Text) : Option Text := do
  let (year, t) ← fixedDigits? 4 t
  let (month, t) ← twoDigits? 1 12 (← after? '-' t)
  let (_, t) ← twoDigits? 1 (daysIn year month) (← after? '-' t)
  return t

/-- The rest of a text after a time of day. -/
def afterTime? (t : Text) : Option Text := do
  let (_, t) ← twoDigits? 0 23 t
  let (_, t) ← twoDigits? 0 59 (← after? ':' t)
  let (_, t) ← twoDigits? 0 60 (← after? ':' t)
  match t with
  | '.' :: c :: rest => if c.isDigit then return rest.dropWhile Char.isDigit else return t
  | _ => return t

/-- The rest of a text after a time offset, if there is one. -/
def afterOffset (t : Text) : Text :=
  match t with
  | 'Z' :: rest | 'z' :: rest => rest
  | '+' :: rest | '-' :: rest =>
    (do
      let (_, rest) ← twoDigits? 0 23 rest
      let (_, rest) ← twoDigits? 0 59 (← after? ':' rest)
      return rest).getD t
  | _ => t

/-- The rest of a text after a date, a time, or both. -/
def afterDateTime? (t : Text) : Option Text :=
  match afterDate? t with
  | some rest =>
    match rest with
    | c :: time =>
      if c == 'T' || c == 't' || c == ' ' then
        match afterTime? time with
        | some rest => some (afterOffset rest)
        | none => some rest
      else some rest
    | [] => some rest
  | none => afterTime? t

/-- A date-time, if there is one. -/
def dateTime? : Reader (Option Node) := do
  let t ← get
  match afterDateTime? t with
  | some rest =>
    set rest
    return some (.dateTime (readText t rest))
  | none => return none

/-! ### Strings -/

/-- The character with a given number, which has to be a Unicode scalar value. -/
def scalar? (n : Nat) : Option Char :=
  if n < 0xD800 ∨ (0xDFFF < n ∧ n < 0x110000) then some (Char.ofNat n) else none

/-- Whether a character is a hexadecimal digit. -/
def isHexDigit (c : Char) : Bool :=
  c.isDigit || ('a' ≤ c && c ≤ 'f') || ('A' ≤ c && c ≤ 'F')

/-- The character written with `n` hexadecimal digits. -/
def hexEscape? (n : Nat) (t : Text) : Option (Char × Text) :=
  let ds := t.take n
  if ds.length = n && ds.all isHexDigit then (scalar? (ofDigits 16 ds)).map (·, t.drop n) else none

/-- The character of an escape, after its backslash. -/
def escape? : Text → Option (Char × Text)
  | 'b' :: rest => some ('\x08', rest)
  | 't' :: rest => some ('\t', rest)
  | 'n' :: rest => some ('\n', rest)
  | 'f' :: rest => some ('\x0c', rest)
  | 'r' :: rest => some ('\r', rest)
  | '"' :: rest => some ('"', rest)
  | '\\' :: rest => some ('\\', rest)
  | 'u' :: rest => hexEscape? 4 rest
  | 'U' :: rest => hexEscape? 8 rest
  | _ => none

/-- The rest of a basic string after its first quote, of at most `n` characters. -/
def basicRest : Nat → Text → Option (Text × Text)
  | 0, _ => none
  | _, [] => none
  | n + 1, c :: cs =>
    if c = '"' then some ([], cs)
    else if c = '\\' then do
      let (d, rest) ← escape? cs
      let (ds, rest) ← basicRest n rest
      return (d :: ds, rest)
    else if isPlainChar c then do
      let (ds, rest) ← basicRest n cs
      return (c :: ds, rest)
    else none

/-- A string in double quotes, after the first of them. -/
def basicString : Reader String := do
  match ← tryRead fun t => basicRest (t.length + 1) t with
  | some s => return String.ofList s
  | none => throw (.malformed "string")

/-- A string in single quotes, after the first of them. -/
def literalString : Reader String := do
  let s ← takeWhile fun c => isPlainChar c && c != '\''
  word "'"
  return String.ofList s

/-- The text after a line end at its start. -/
def afterNewline? : Text → Option Text
  | '\n' :: rest => some rest
  | '\r' :: '\n' :: rest => some rest
  | _ => none

/-- Skips blanks and line ends. -/
def skipBreaks : Text → Text
  | '\r' :: '\n' :: rest => skipBreaks rest
  | c :: rest => if isBlankChar c || c == '\n' then skipBreaks rest else c :: rest
  | [] => []

/-- The rest of a text over several lines, up to the closing quotes, of at most `n` characters.
Two more quotes may stand directly before the closing ones.  With `escapes` a backslash starts an
escape, or joins the line to the next character that is no blank. -/
def multilineRest (quote : Char) (escapes : Bool) : Nat → Text → Option (Text × Text)
  | 0, _ => none
  | _, [] => none
  | n + 1, c :: cs =>
    if c = quote ∧ cs.take 2 = [quote, quote] ∧ (cs.drop 2).head? ≠ some quote then
      some ([], cs.drop 2)
    else if c = quote ∧ cs.take 4 = [quote, quote, quote, quote] then
      some ([quote, quote], cs.drop 4)
    else if escapes && c == '\\' then
      match escape? cs with
      | some (d, rest) => do
        let (ds, rest) ← multilineRest quote escapes n rest
        return (d :: ds, rest)
      | none => do
        let rest ← afterNewline? (cs.dropWhile isBlankChar)
        multilineRest quote escapes n (skipBreaks rest)
    else
      match afterNewline? (c :: cs) with
      | some rest => do
        let (ds, rest) ← multilineRest quote escapes n rest
        return ('\n' :: ds, rest)
      | none =>
        if isPlainChar c then do
          let (ds, rest) ← multilineRest quote escapes n cs
          return (c :: ds, rest)
        else none

/-- A string over several lines, after its three quotes.  A line end directly after them does not
count. -/
def multilineString (quote : Char) (escapes : Bool) : Reader String := do
  let _ ← tryNewline
  match ← tryRead fun t => multilineRest quote escapes (t.length + 1) t with
  | some s => return String.ofList s
  | none => throw (.malformed "string")

/-- A string of any kind, if there is one. -/
def string? : Reader (Option String) := do
  if ← tryWord "\"\"\"" then return some (← multilineString '"' true)
  else if ← tryWord "\"" then return some (← basicString)
  else if ← tryWord "'''" then return some (← multilineString '\'' false)
  else if ← tryWord "'" then return some (← literalString)
  else return none

/-! ### Keys -/

/-- Whether a character can stand in a key without quotes. -/
def isBareKeyChar (c : Char) : Bool := c.isAlphanum || c == '_' || c == '-'

/-- One part of a dotted key. -/
def simpleKey : Reader String := do
  if ← tryWord "\"" then basicString
  else if ← tryWord "'" then literalString
  else
    let key ← takeWhile isBareKeyChar
    if key.isEmpty then throw (.malformed "key")
    return String.ofList key

/-- At most `n` parts of a dotted key. -/
def keyParts : Nat → Reader (List String)
  | 0 => throw .tooDeep
  | n + 1 => do
    blanks
    let key ← simpleKey
    blanks
    if ← tryWord "." then return key :: (← keyParts n) else return [key]

/-- How deeply values and keys may be nested. -/
def nestingLimit : Nat := 80

/-- A key: its last part, after the parts before it. -/
def dottedKey : Reader (List String × String) := do
  let parts ← keyParts (nestingLimit - 1)
  return (parts.dropLast, parts.getLast?.getD "")

end Offside.Toml
