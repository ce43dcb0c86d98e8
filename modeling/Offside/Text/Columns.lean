import Offside.Text.Basic

/-!
# Columns of indentation

Indentation is a run of spaces, tabs and form feeds.  A tab moves to the next multiple of the tab
width, a form feed takes no room, and every other character takes one column.

* `indentation`, `afterIndentation`: a line's leading run, and what follows it;
* `displayWidth`: the column reached after a text;
* `indentString`: the run written for a given width.
-/

namespace Offside

/-- The characters that indentation is made of. -/
def isIndentChar (c : Char) : Bool := c == ' ' || c == '\t' || c == '\x0c'

namespace Text

/-- The leading spaces, tabs and form feeds of a text. -/
def indentation (t : Text) : Text := t.takeWhile isIndentChar

/-- The text after its leading spaces, tabs and form feeds. -/
def afterIndentation (t : Text) : Text := t.dropWhile isIndentChar

/-- A text is its indentation followed by the rest. -/
@[simp] theorem indentation_append_afterIndentation (t : Text) :
    t.indentation ++ t.afterIndentation = t :=
  List.takeWhile_append_dropWhile

/-- The column reached from column `width` by one character. -/
def nextColumn (tabWidth width : Nat) (c : Char) : Nat :=
  if c = '\t' then (width / max tabWidth 1 + 1) * max tabWidth 1
  else if c = '\x0c' then width
  else width + 1

/-- The number of columns a text takes from column zero; a tab width of zero counts as one. -/
def displayWidth (tabWidth : Nat) (t : Text) : Nat := t.foldl (nextColumn tabWidth) 0

end Text

/-- The indentation written for `width` columns: spaces, or as many tabs as fit and then spaces. -/
def indentString (width : Nat) (useTabs : Bool) (tabWidth : Nat) : Text :=
  if useTabs ∧ 0 < tabWidth then
    List.replicate (width / tabWidth) '\t' ++ List.replicate (width % tabWidth) ' '
  else
    List.replicate width ' '

end Offside
