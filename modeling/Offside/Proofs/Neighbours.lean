import Offside.Proofs.Guarded.Block
import Offside.Proofs.Partition

/-!
# The statements on either side of a line

The statements below a line and those above it are found by walks that are cut off after a number of
steps.  The number is always large enough: one step more of the walk is one statement more of the
list, and the lists hold exactly the first lines of statements with code on that side, nearest
first.

* `Document.startsCode_statementStart`: a line with code belongs to a statement that starts with
  code;
* `Document.statementsAfter_eq`, `statementsAbove_eq`: the lists, one step at a time;
* `Document.mem_statementsBelow_iff`, `mem_statementsAbove_iff`: what is in them;
* `Document.pairwise_statementsAfter`, `pairwise_statementsAbove`: their order;
* `Document.statementsBelow_of_append`, `statementsAbove_of_append`: the statements on the same side
  of one of them.
-/

namespace Offside

namespace Document

variable {d : Document} {line m n : Nat}

/-! ### Statements with code -/

/-- A line with code belongs to a statement whose first line has code. -/
theorem startsCode_statementStart (hm : 1 ≤ m) (hle : m ≤ d.lineCount)
    (hcode : d.isBlankOrComment m = false) : d.StartsCode (d.statementStart m) := by
  have h := isStatement_of_line hm hle
  have hstart := statementStart_le hm hle
  have hend := (statementEnd_mem hm hle).1
  refine ⟨(h.bounds_eq (Nat.le_refl _) h.first_le).1, ?_⟩
  -- a first line without code would be the whole statement
  by_contra hblank
  have hlast := h.eq_of_isBlankOrComment (by simpa using hblank)
  have hsame : d.statementStart m = m := by omega
  rw [hsame, hcode] at hblank
  exact hblank rfl

theorem startsCode_of_statementAt? {offset : Nat} (h : d.statementAt? offset = some m) :
    d.StartsCode m := by
  obtain ⟨hone, hle⟩ := d.buffer.lineOfOffset_mem offset
  obtain ⟨l, hl, rfl⟩ := Option.map_eq_some_iff.1 h
  rw [codeLineAtOrBefore?] at hl
  split at hl
  · obtain ⟨hlo, hlt, hcode, -⟩ := previousCodeLine?_eq_some hl
    exact startsCode_statementStart hlo (Nat.le_trans (Nat.le_of_lt hlt) hle) hcode
  · next hcode =>
    cases hl
    exact startsCode_statementStart hone hle (by simpa using hcode)

/-- A statement ends before a later one starts. -/
theorem StartsCode.statementEnd_lt (h : d.StartsCode m) (hn : 1 ≤ n) (hlt : n < m) :
    d.statementEnd n < m := by
  have hle : n ≤ d.lineCount := Nat.le_trans (Nat.le_of_lt hlt) h.mem.2
  have hfirst := statementStart_le hn hle
  by_contra hge
  have hsame := ((isStatement_of_line hn hle).bounds_eq (m := m) (by omega) (by omega)).1
  have hstart := h.1
  omega

/-- A line of a statement lies below the start of every other statement above it. -/
theorem StartsCode.le_statementStart (h : d.StartsCode m) (hle : m ≤ n) (hn : n ≤ d.lineCount) :
    m ≤ d.statementStart n := by
  have hone : 1 ≤ n := Nat.le_trans h.mem.1 hle
  by_contra hlt
  have hend := (statementEnd_mem hone hn).1
  have hsame := ((isStatement_of_line hone hn).bounds_eq (m := m) (by omega) (by omega)).1
  have hstart := h.1
  omega

/-! ### Statements below -/

theorem nextCodeLine?_of_le (h : d.lineCount ≤ line) : d.nextCodeLine? line = none := by
  rw [nextCodeLine?, Nat.sub_eq_zero_of_le h]
  rfl

/-- Once a walk downwards may take as many steps as there are lines left, more make no
difference. -/
theorem afterFrom_congr {k n : Nat} (h : d.lineCount ≤ line + k) (h' : d.lineCount ≤ line + n) :
    d.afterFrom k line = d.afterFrom n line := by
  induction k generalizing n line with
  | zero =>
    cases n with
    | zero => rfl
    | succ n => rw [afterFrom, afterFrom, nextCodeLine?_of_le (by omega)]
  | succ k ih =>
    cases n with
    | zero => rw [afterFrom, afterFrom, nextCodeLine?_of_le (by omega)]
    | succ n =>
      rw [afterFrom, afterFrom]
      cases hnext : d.nextCodeLine? line with
      | none => rfl
      | some s =>
        obtain ⟨hlt, hs, -⟩ := nextCodeLine?_eq_some_iff.1 hnext
        have hend := (statementEnd_mem (show 1 ≤ s by omega) hs).1
        dsimp only
        rw [ih (show d.lineCount ≤ d.statementEnd s + k by omega) (n := n) (by omega)]

/-- The statements after a line are the next one and those after it. -/
theorem statementsAfter_eq (d : Document) (line : Nat) :
    d.statementsAfter line =
      match d.nextCodeLine? line with
      | none => []
      | some s => s :: d.statementsAfter (d.statementEnd s) := by
  rw [statementsAfter, afterFrom_congr (n := d.lineCount - line + 1) (by omega) (by omega), afterFrom]
  cases hnext : d.nextCodeLine? line with
  | none => rfl
  | some s =>
    obtain ⟨hlt, hs, -⟩ := nextCodeLine?_eq_some_iff.1 hnext
    have hend := (statementEnd_mem (show 1 ≤ s by omega) hs).1
    dsimp only
    rw [statementsAfter, afterFrom_congr (n := d.lineCount - d.statementEnd s) (by omega) (by omega)]

/-- The statements below a line are the next one and those below it. -/
theorem statementsBelow_eq (d : Document) (line : Nat) :
    d.statementsBelow line =
      match d.nextStatement? line with
      | none => []
      | some s => s :: d.statementsBelow s :=
  d.statementsAfter_eq (d.statementEnd line)

theorem pairwise_afterFrom (d : Document) (k line : Nat) :
    (d.afterFrom k line).Pairwise (· < ·) := by
  induction k generalizing line with
  | zero => exact .nil
  | succ k ih =>
    rw [afterFrom]
    split
    · exact .nil
    · next s hnext =>
      obtain ⟨hlt, hs, -⟩ := nextCodeLine?_eq_some_iff.1 hnext
      refine List.pairwise_cons.2 ⟨fun m hm => ?_, ih (d.statementEnd s)⟩
      have hend := (statementEnd_mem (show 1 ≤ s by omega) hs).1
      exact Nat.lt_of_le_of_lt hend (mem_afterFrom_lt hm).1

/-- The statements after a line are listed from top to bottom. -/
theorem pairwise_statementsAfter (d : Document) (line : Nat) :
    (d.statementsAfter line).Pairwise (· < ·) :=
  d.pairwise_afterFrom _ line

/-- The statements below a line are those with code that start below it. -/
theorem mem_statementsBelow_iff (hm : 1 ≤ m) (hle : m ≤ d.lineCount) :
    n ∈ d.statementsBelow m ↔ d.StartsCode n ∧ m < n := by
  constructor
  · intro h
    refine ⟨startsCode_of_mem_afterFrom (fun hlt => ?_) h, (mem_statementsBelow hm hle h).1⟩
    exact .inr (not_continues_statementEnd hm hle hlt)
  · rintro ⟨hn, hlt⟩
    exact mem_afterFrom hn (hn.statementEnd_lt hm hlt) (by omega)

/-- All that is met going down are lines with code. -/
theorem isBlankOrComment_of_mem_afterFrom {k : Nat} (h : m ∈ d.afterFrom k line) :
    d.isBlankOrComment m = false := by
  induction k generalizing line with
  | zero => cases h
  | succ k ih =>
    rw [afterFrom] at h
    split at h
    · cases h
    · next s hnext =>
      rcases List.mem_cons.1 h with rfl | h
      · exact (nextCodeLine?_eq_some_iff.1 hnext).2.2.1
      · exact ih h

/-- The statements below one of those below a line are the ones listed after it. -/
theorem statementsBelow_of_append {pre suf : List Nat}
    (h : d.statementsBelow line = pre ++ m :: suf) : d.statementsBelow m = suf := by
  induction pre generalizing line with
  | nil =>
    rw [statementsBelow_eq] at h
    cases hnext : d.nextStatement? line with
    | none =>
      rw [hnext] at h
      cases h
    | some s =>
      rw [hnext] at h
      obtain ⟨rfl, hrest⟩ := List.cons_eq_cons.1 h
      exact hrest
  | cons l pre ih =>
    rw [statementsBelow_eq] at h
    cases hnext : d.nextStatement? line with
    | none =>
      rw [hnext] at h
      cases h
    | some s =>
      rw [hnext] at h
      obtain ⟨rfl, hrest⟩ := List.cons_eq_cons.1 h
      exact ih hrest

/-! ### Statements above -/

theorem startsCode_previousStatement? (hline : line ≤ d.lineCount + 1)
    (h : d.previousStatement? line = some m) : d.StartsCode m := by
  obtain ⟨p, hp, rfl⟩ := Option.map_eq_some_iff.1 h
  obtain ⟨hone, hlt, hcode, -⟩ := previousCodeLine?_eq_some hp
  exact startsCode_statementStart hone (by omega) hcode

theorem previousStatement?_of_le_one (h : line ≤ 1) : d.previousStatement? line = none := by
  cases hprevious : d.previousStatement? line with
  | none => rfl
  | some s =>
    have := previousStatement?_lt hprevious
    omega

/-- Once a walk upwards may take as many steps as there are lines left, more make no difference. -/
theorem aboveFrom_congr {k n : Nat} (h : line ≤ k + 1) (h' : line ≤ n + 1) :
    d.aboveFrom k line = d.aboveFrom n line := by
  induction k generalizing n line with
  | zero =>
    cases n with
    | zero => rfl
    | succ n => rw [aboveFrom, aboveFrom, previousStatement?_of_le_one (by omega)]
  | succ k ih =>
    cases n with
    | zero => rw [aboveFrom, aboveFrom, previousStatement?_of_le_one (by omega)]
    | succ n =>
      rw [aboveFrom, aboveFrom]
      cases hprevious : d.previousStatement? line with
      | none => rfl
      | some s =>
        have hlt := (previousStatement?_lt hprevious).2
        dsimp only
        rw [ih (show s ≤ k + 1 by omega) (n := n) (by omega)]

/-- The statements above a line are the previous one and those above it. -/
theorem statementsAbove_eq (hline : line ≤ d.lineCount + 1) :
    d.statementsAbove line =
      match d.previousStatement? line with
      | none => []
      | some s => s :: d.statementsAbove s := by
  rw [statementsAbove, aboveFrom_congr (n := line + 1) (by omega) (by omega), aboveFrom]
  cases hprevious : d.previousStatement? line with
  | none => rfl
  | some s =>
    have hlt := (previousStatement?_lt hprevious).2
    dsimp only
    rw [statementsAbove, aboveFrom_congr (n := min s d.lineCount) (by omega) (by omega)]

theorem pairwise_aboveFrom (d : Document) (k line : Nat) :
    (d.aboveFrom k line).Pairwise (· > ·) := by
  induction k generalizing line with
  | zero => exact .nil
  | succ k ih =>
    rw [aboveFrom]
    split
    · exact .nil
    · next s hprevious =>
      exact List.pairwise_cons.2 ⟨fun m hm => (mem_aboveFrom hm).2, ih s⟩

/-- The statements above a line are listed from bottom to top. -/
theorem pairwise_statementsAbove (d : Document) (line : Nat) :
    (d.statementsAbove line).Pairwise (· > ·) :=
  d.pairwise_aboveFrom _ line

theorem startsCode_of_mem_statementsAbove (hline : line ≤ d.lineCount + 1)
    (h : m ∈ d.statementsAbove line) : d.StartsCode m := by
  induction line using Nat.strong_induction_on with
  | _ line ih =>
    rw [statementsAbove_eq hline] at h
    cases hprevious : d.previousStatement? line with
    | none =>
      rw [hprevious] at h
      cases h
    | some s =>
      rw [hprevious] at h
      have hlt := (previousStatement?_lt hprevious).2
      rcases List.mem_cons.1 h with rfl | h
      · exact startsCode_previousStatement? hline hprevious
      · exact ih s hlt (by omega) h

/-- Going up, no statement with code is passed over. -/
theorem mem_statementsAbove_of_lt (hline : line ≤ d.lineCount + 1) (hm : d.StartsCode m)
    (hlt : m < line) : m ∈ d.statementsAbove line := by
  induction line using Nat.strong_induction_on with
  | _ line ih =>
    obtain ⟨p, hp, hmp⟩ := exists_previousCodeLine? hm.mem.1 hlt hm.2
    have hpline := (previousCodeLine?_eq_some hp).2.1
    have hprevious : d.previousStatement? line = some (d.statementStart p) := by
      rw [previousStatement?, hp, Option.map_some]
    have hle := hm.le_statementStart hmp (by omega)
    rw [statementsAbove_eq hline, hprevious]
    by_cases hsame : m = d.statementStart p
    · exact hsame ▸ List.mem_cons_self
    · have hs := (previousStatement?_lt hprevious).2
      exact List.mem_cons_of_mem _ (ih _ hs (by omega) (by omega))

/-- The statements above a line are those with code that start above it. -/
theorem mem_statementsAbove_iff (hline : line ≤ d.lineCount + 1) :
    m ∈ d.statementsAbove line ↔ d.StartsCode m ∧ m < line :=
  ⟨fun h => ⟨startsCode_of_mem_statementsAbove hline h, (mem_statementsAbove h).2⟩,
    fun h => mem_statementsAbove_of_lt hline h.1 h.2⟩

/-- The statements above one of those above a line are the ones listed after it. -/
theorem statementsAbove_of_append {pre suf : List Nat} (hline : line ≤ d.lineCount + 1)
    (h : d.statementsAbove line = pre ++ m :: suf) : d.statementsAbove m = suf := by
  induction pre generalizing line with
  | nil =>
    rw [statementsAbove_eq hline] at h
    cases hprevious : d.previousStatement? line with
    | none =>
      rw [hprevious] at h
      cases h
    | some s =>
      rw [hprevious] at h
      obtain ⟨rfl, hrest⟩ := List.cons_eq_cons.1 h
      exact hrest
  | cons l pre ih =>
    rw [statementsAbove_eq hline] at h
    cases hprevious : d.previousStatement? line with
    | none =>
      rw [hprevious] at h
      cases h
    | some s =>
      rw [hprevious] at h
      have hlt := (previousStatement?_lt hprevious).2
      obtain ⟨rfl, hrest⟩ := List.cons_eq_cons.1 h
      exact ih (by omega) hrest

end Document

end Offside
