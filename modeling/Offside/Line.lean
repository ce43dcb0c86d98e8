import Offside.Text.Class
import Offside.Text.Columns

/-!
# Lines

A text is cut after each line feed.  A row keeps its terminator; a line separates it from the body,
and one carriage return before the line feed belongs to the terminator.

* `Text.rows`: the text cut into rows, which join to the text again (`flatten_rows`);
* `Line`: where a line starts, its body and its ending;
* `Text.lines`: the lines of a text, of which there is always at least one.
-/

namespace Offside

/-- How a line ends.  Only the last line of a text has no terminator. -/
inductive Ending
  | none
  | lf
  | crlf
  deriving DecidableEq, Repr, Inhabited

/-- The characters of a line terminator. -/
def Ending.text : Ending → Text
  | .none => []
  | .lf => ['\n']
  | .crlf => ['\r', '\n']

/-- A line of a text: the offset of its first character, its text without terminator, and the
terminator. -/
structure Line where
  start : Nat
  body : Text
  ending : Ending
  deriving DecidableEq, Repr, Inhabited

namespace Line

/-- The line with its terminator. -/
def row (l : Line) : Text := l.body ++ l.ending.text

/-- The offset just past the body. -/
def stop (l : Line) : Nat := l.start + l.body.size

/-- The offset just past the terminator. -/
def next (l : Line) : Nat := l.start + l.row.size

/-- The line at offset `start` whose text, terminator included, is `row`. -/
def ofRow (start : Nat) (row : Text) : Line :=
  match row.reverse with
  | '\n' :: '\r' :: body => ⟨start, body.reverse, .crlf⟩
  | '\n' :: body => ⟨start, body.reverse, .lf⟩
  | _ => ⟨start, row, .none⟩

@[simp] theorem ofRow_start (start : Nat) (row : Text) : (ofRow start row).start = start := by
  unfold ofRow
  split <;> rfl

/-- Taking a row apart loses nothing. -/
@[simp] theorem ofRow_row (start : Nat) (r : Text) : (ofRow start r).row = r := by
  unfold ofRow
  split
  · next body h => simpa [row, Ending.text] using (congrArg List.reverse h).symm
  · next body _ h => simpa [row, Ending.text] using (congrArg List.reverse h).symm
  · simp [row, Ending.text]

/-- The offset of the first character that is no indentation, or the end of the body. -/
def indentationEnd (l : Line) : Nat := l.start + l.body.indentation.size

/-- The width of the line's indentation in columns. -/
def indentation (tabWidth : Nat) (l : Line) : Nat := l.body.indentation.displayWidth tabWidth

/-- The characters of the line before byte `offset` of the text. -/
def before (l : Line) (offset : Nat) : Text := l.row.takeBytes (offset - l.start)

end Line

namespace Text

/-- The text cut after each line feed. -/
def rows : Text → List Text
  | [] => [[]]
  | c :: cs =>
    if c = '\n' then [c] :: rows cs
    else
      match rows cs with
      | [] => [[c]]
      | r :: rs => (c :: r) :: rs

theorem rows_ne_nil (t : Text) : rows t ≠ [] := by
  cases t with
  | nil => simp [rows]
  | cons c cs =>
    unfold rows
    split
    · simp
    · split <;> simp

/-- The rows join to the text. -/
@[simp] theorem flatten_rows (t : Text) : (rows t).flatten = t := by
  induction t with
  | nil => rfl
  | cons c cs ih =>
    unfold rows
    split
    · simp [ih]
    · split
      · next h => exact absurd h (rows_ne_nil cs)
      · next r rs h => rw [h] at ih; simp_all

/-- The lines of consecutive rows, the first of which starts at `start`. -/
def linesOfRows : Nat → List Text → List Line
  | _, [] => []
  | start, r :: rs => Line.ofRow start r :: linesOfRows (start + r.size) rs

/-- The lines of a text. -/
def lines (t : Text) : List Line := linesOfRows 0 t.rows

end Text

end Offside
