import Offside.Indentation

/-!
# Levels

The stops at which a line may be put: the multiples of the unit up to its indentation, and that
indentation.  Repeated requests go through them from the deepest to the first and around again.
-/

namespace Offside

/-- Candidate indentations, of which one is selected. -/
structure Levels where
  stops : List Nat
  current : Nat
  deriving DecidableEq, Repr, Inhabited

namespace Levels

/-- The stops from zero to an indentation in steps of a unit; the last one is selected. -/
def ofIndentation (indentation unit : Nat) : Levels :=
  let steps := indentation / unit
  let multiples := (List.range (steps + 1)).map (· * unit)
  let stops := if indentation = steps * unit then multiples else multiples ++ [indentation]
  ⟨stops, stops.length - 1⟩

/-- The selected indentation. -/
def level (l : Levels) : Nat := l.stops.getD l.current 0

/-- The index of the next shallower stop; the deepest one follows the first. -/
def cycle (stops : List Nat) (index : Nat) : Nat :=
  if index = 0 ∨ stops.length ≤ index then stops.length - 1 else index - 1

/-- The same stops with the next one selected. -/
def cycled (l : Levels) : Levels := { l with current := cycle l.stops l.current }

end Levels

namespace Document

/-- The levels of a line in steps of a given unit. -/
def levelsBy (d : Document) (line unit : Nat) : Levels :=
  Levels.ofIndentation (d.computedIndentation line) unit

/-- The levels of a line in steps of the document's unit. -/
def levels (d : Document) (line : Nat) : Levels := d.levelsBy line d.indentUnit

end Document

end Offside
