import Offside.Buffer
import Offside.Lexical.Scanner

/-!
# Checkpoints

A cache keeps scanners of a buffer, so that a later scan can start from the nearest one instead of
from the beginning: one at every 64th line that a scan has passed, and the most recent answer.

A scanner looks at most two characters ahead, so after an edit the scanners that stand three bytes
or more before it are still right, and `invalidateFrom` forgets all others.
-/

namespace Offside.Lexical

/-- The number of lines from one checkpoint to the next. -/
def checkpointInterval : Nat := 64

/-- The number of bytes from a scanner to an edit that leaves it valid. -/
def lookahead : Nat := 3

/-- Scanners of a buffer: checkpoints in increasing order, and the most recent answer. -/
structure Cache where
  checkpoints : List Scanner := []
  last : Option Scanner := none
  deriving DecidableEq, Repr, Inhabited

namespace Cache

/-- A scanner put at its place among others, unless there is one with its offset. -/
def insertSorted (s : Scanner) : List Scanner → List Scanner
  | [] => [s]
  | t :: ts =>
    if s.offset < t.offset then s :: t :: ts
    else if s.offset = t.offset then t :: ts
    else t :: insertSorted s ts

/-- The cache with one more checkpoint, which has to stand between tokens. -/
def record (c : Cache) (s : Scanner) : Cache :=
  if s.atBoundary then { c with checkpoints := insertSorted s c.checkpoints } else c

/-- The last checkpoint at or before an offset. -/
def checkpointBefore? (c : Cache) (target : Nat) : Option Scanner :=
  (c.checkpoints.takeWhile (·.offset ≤ target)).getLast?

/-- The scanner to go on from: the furthest one held that is at or before `target`. -/
def resumePoint (c : Cache) (target : Nat) : Scanner :=
  match c.checkpointBefore? target, c.last.filter (·.offset ≤ target) with
  | some s, some t => if s.offset < t.offset then t else s
  | some s, none => s
  | none, some t => t
  | none, none => {}

/-- The offsets of a buffer at which checkpoints are set. -/
def checkpointOffsets (b : Buffer) : List Nat :=
  (List.range ((b.lineCount - 1) / checkpointInterval)).map fun k =>
    b.lineStart ((k + 1) * checkpointInterval + 1)

/-- One leg of a scan: on to a checkpoint, which is recorded. -/
def pass (text : Text) (walk : Scanner × Cache) (offset : Nat) : Scanner × Cache :=
  let s := walk.1.advanceTo text offset
  (s, walk.2.record s)

/-- The scanner at an offset, and the cache after the scan. -/
def scannerAt (b : Buffer) (offset : Nat) (c : Cache) : Scanner × Cache :=
  let target := b.floorBoundary offset
  let resume := c.resumePoint target
  let ahead := (checkpointOffsets b).filter fun o =>
    decide (resume.offset < o) && decide (o ≤ target)
  let walk := ahead.foldl (pass b.text) (resume, c)
  let s := walk.1.advanceTo b.text target
  (s, { walk.2 with last := some s })

/-- The lexical state at an offset, and the cache after the scan. -/
def classify (b : Buffer) (offset : Nat) (c : Cache) : State × Cache :=
  let answer := c.scannerAt b offset
  (answer.1.state, answer.2)

/-- The scanners that an edit at `offset` leaves valid. -/
def invalidateFrom (offset : Nat) (c : Cache) : Cache :=
  { checkpoints := c.checkpoints.filter (·.offset + lookahead ≤ offset)
    last := c.last.filter (·.offset + lookahead ≤ offset) }

/-- The cache with all scanners forgotten. -/
def clear (_ : Cache) : Cache := {}

end Cache

end Offside.Lexical
