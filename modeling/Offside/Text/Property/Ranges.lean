/-!
# Ranges of code points

A character property is given by the list of its code point ranges, in increasing order.
-/

namespace Offside.Property

/-- Ranges of code points, both ends included, in increasing order and disjoint. -/
abbrev Ranges := List (Nat × Nat)

/-- Whether a code point lies in one of the ranges.  The ranges are in order, so the search stops
at the first one that starts later. -/
def Ranges.contains : Ranges → Nat → Bool
  | [], _ => false
  | (first, last) :: ranges, n =>
    if n < first then false else if n ≤ last then true else contains ranges n

/-- The ranges are in increasing order and no two of them touch the same code point. -/
def Ranges.isSorted : Ranges → Bool
  | [] => true
  | [(first, last)] => decide (first ≤ last)
  | (first, last) :: (next, end_) :: ranges =>
    decide (first ≤ last ∧ last < next) && isSorted ((next, end_) :: ranges)

end Offside.Property
