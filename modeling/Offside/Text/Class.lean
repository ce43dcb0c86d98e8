import Offside.Text.Basic
import Offside.Text.Property.Age
import Offside.Text.Property.Alphabetic
import Offside.Text.Property.Mark
import Offside.Text.Property.Number

/-!
# Character classes

* `isWhiteSpace`: the property White_Space;
* `isWordChar`: what a word of a source line is made of, namely alphabetic characters, marks,
  decimal digits, connectors and the two joiners, by edition 16 of Unicode;
* `isAlphanumeric`: alphabetic characters and numbers of every kind, by edition 17;
* `trimStart`, `trim`, `isBlank`: texts up to white space.
-/

namespace Offside

/-- White space: the ASCII controls from tab to carriage return, the space, and the spaces and line
separators beyond ASCII. -/
def isWhiteSpace (c : Char) : Bool :=
  let n := c.toNat
  (9 ≤ n && n ≤ 13) || n = 0x20 || n = 0x85 || n = 0xA0 || n = 0x1680 ||
    (0x2000 ≤ n && n ≤ 0x200A) || n = 0x2028 || n = 0x2029 || n = 0x202F || n = 0x205F || n = 0x3000

/-- Whether a character is a decimal digit of some script. -/
def isDecimalDigit (c : Char) : Bool :=
  if c.toNat < 128 then c.isDigit else Property.decimalNumber.contains c.toNat

/-- Whether a character can stand in a word.  Words go by edition 16 of Unicode, so a character that
edition 17 has added is in none. -/
def isWordChar (c : Char) : Bool :=
  if c.toNat < 128 then c.isAlpha || c.isDigit || c == '_'
  else
    !Property.newInEdition17.contains c.toNat &&
      (Property.alphabetic.contains c.toNat || Property.mark.contains c.toNat ||
        Property.decimalNumber.contains c.toNat ||
        Property.connectorPunctuation.contains c.toNat ||
        c.toNat == 0x200C || c.toNat == 0x200D)

/-- Whether a character is alphabetic or a number of any kind. -/
def isAlphanumeric (c : Char) : Bool :=
  if c.toNat < 128 then c.isAlpha || c.isDigit
  else
    Property.alphabetic.contains c.toNat || Property.decimalNumber.contains c.toNat ||
      Property.otherNumber.contains c.toNat

namespace Text

/-- The text without its leading white space. -/
def trimStart (t : Text) : Text := t.dropWhile isWhiteSpace

/-- The text without the white space at either end. -/
def trim (t : Text) : Text := (trimStart (trimStart t).reverse).reverse

/-- Whether a text holds nothing but white space. -/
def isBlank (t : Text) : Bool := t.all isWhiteSpace

/-- A text is blank exactly when nothing is left of it after trimming. -/
theorem isBlank_iff_trimStart (t : Text) : isBlank t = true ↔ trimStart t = [] := by
  induction t with
  | nil => simp [isBlank, trimStart]
  | cons c cs ih =>
    by_cases h : isWhiteSpace c = true
    · have hc : trimStart (c :: cs) = trimStart cs := by simp [trimStart, h]
      rw [hc, ← ih]
      simp [isBlank, h]
    · simp [isBlank, trimStart, h]

end Text

end Offside
