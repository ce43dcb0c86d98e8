/-!
# Texts and byte offsets

A text is a list of characters.  Positions in it are byte offsets of its UTF-8 form, so a
character may cover several offsets and only some offsets are character boundaries.

* `size`: the number of bytes of a text;
* `takeBytes`, `dropBytes`: the characters that lie wholly before an offset, and the rest;
* `floorBoundary`, `IsBoundary`: rounding an offset down to a character boundary;
* `slice?`: the text between two boundaries.
-/

namespace Offside

/-- A text, as the list of its characters. -/
abbrev Text := List Char

namespace Text

/-- The number of bytes of a text. -/
def size : Text → Nat
  | [] => 0
  | c :: cs => c.utf8Size + size cs

@[simp] theorem size_nil : size [] = 0 := rfl

@[simp] theorem size_cons (c : Char) (cs : Text) : size (c :: cs) = c.utf8Size + size cs := rfl

@[simp] theorem size_append (s t : Text) : size (s ++ t) = size s + size t := by
  induction s with
  | nil => simp
  | cons c cs ih => simp [ih, Nat.add_assoc]

/-- The characters that end at or before byte `n`. -/
def takeBytes : Nat → Text → Text
  | _, [] => []
  | n, c :: cs => if c.utf8Size ≤ n then c :: takeBytes (n - c.utf8Size) cs else []

/-- The characters that end after byte `n`. -/
def dropBytes : Nat → Text → Text
  | _, [] => []
  | n, c :: cs => if c.utf8Size ≤ n then dropBytes (n - c.utf8Size) cs else c :: cs

/-- A text is its part before an offset followed by its part after it. -/
@[simp] theorem takeBytes_append_dropBytes (n : Nat) (t : Text) :
    takeBytes n t ++ dropBytes n t = t := by
  induction t generalizing n with
  | nil => rfl
  | cons c cs ih => by_cases h : c.utf8Size ≤ n <;> simp [takeBytes, dropBytes, h, ih]

/-- The largest character boundary at or before byte `n`. -/
def floorBoundary (t : Text) (n : Nat) : Nat := size (takeBytes n t)

/-- Rounding down never moves an offset forward. -/
theorem floorBoundary_le (t : Text) (n : Nat) : floorBoundary t n ≤ n := by
  unfold floorBoundary
  induction t generalizing n with
  | nil => simp [takeBytes]
  | cons c cs ih =>
    by_cases h : c.utf8Size ≤ n
    · have := ih (n - c.utf8Size)
      simp [takeBytes, h]
      omega
    · simp [takeBytes, h]

/-- Rounding down never goes past the end of the text. -/
theorem floorBoundary_le_size (t : Text) (n : Nat) : floorBoundary t n ≤ size t := by
  have h := congrArg size (takeBytes_append_dropBytes n t)
  rw [size_append] at h
  unfold floorBoundary
  omega

/-- Whether byte `n` lies between two characters, or at an end, of the text. -/
def IsBoundary (t : Text) (n : Nat) : Prop := floorBoundary t n = n

instance (t : Text) (n : Nat) : Decidable (IsBoundary t n) :=
  inferInstanceAs (Decidable (_ = _))

/-- The text from byte `start` up to byte `stop`, provided that these are boundaries in order. -/
def slice? (t : Text) (start stop : Nat) : Option Text :=
  if start ≤ stop ∧ IsBoundary t start ∧ IsBoundary t stop then
    some (takeBytes (stop - start) (dropBytes start t))
  else
    none

/-- The text from byte `start` up to byte `stop`, both rounded down to boundaries. -/
def between (t : Text) (start stop : Nat) : Text :=
  dropBytes start (takeBytes stop t)

/-- The text with what stands between two offsets replaced. -/
def splice (t : Text) (start stop : Nat) (replacement : Text) : Text :=
  takeBytes start t ++ replacement ++ dropBytes stop t

/-- The characters of a text, each with its byte offset; the first stands at `start`. -/
def offsets : Nat → Text → List (Nat × Char)
  | _, [] => []
  | start, c :: cs => (start, c) :: offsets (start + c.utf8Size) cs

end Text

end Offside
