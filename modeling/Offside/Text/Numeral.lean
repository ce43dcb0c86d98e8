import Offside.Text.Basic

/-!
# Decimal numerals

Numbers as they are written on a command line: an optional sign and ASCII digits.
-/

namespace Offside.Text

/-- The number that decimal digits stand for, of which there has to be at least one. -/
def digits? (t : Text) : Option Nat :=
  if !t.isEmpty && t.all Char.isDigit then
    some (t.foldl (fun n c => n * 10 + (c.toNat - '0'.toNat)) 0)
  else none

/-- A number below `bound`, with an optional plus sign. -/
def unsigned? (bound : Nat) (t : Text) : Option Nat :=
  (match t with
    | '+' :: rest => digits? rest
    | _ => digits? t).filter (· < bound)

/-- A number below `bound`, with an optional sign; minus zero is zero. -/
def nonnegative? (bound : Nat) (t : Text) : Option Nat :=
  match t with
  | '-' :: rest => (digits? rest).filter (· == 0)
  | _ => unsigned? bound t

end Offside.Text
