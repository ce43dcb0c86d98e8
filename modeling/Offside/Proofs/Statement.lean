import Offside.Statement.Basic
import Offside.Proofs.Text.Rows

/-!
# The lines of a statement

A statement starts after a line that does not continue and ends with the first one that does not,
or with the document.

* `startFrom_le`, `not_continues_of_startFrom`, `startFrom_eq_of_continues`: going back to the start;
* `endFrom_le`, `continues_of_lt_endFrom`, `endFrom_cases`: going on to the end;
* `previousCodeLine?_eq_some`: the nearest code line above.
-/

namespace Offside

namespace Document

variable {d : Document} {m n line : Nat}

/-! ### Going back -/

theorem startFrom_le (d : Document) (m : Nat) : d.startFrom m ≤ m := by
  fun_induction startFrom d m with
  | case1 => omega
  | case2 => omega
  | case3 n h ih => omega
  | case4 n h => omega

theorem one_le_startFrom (hm : 1 ≤ m) : 1 ≤ d.startFrom m := by
  fun_induction startFrom d m with
  | case1 => omega
  | case2 => omega
  | case3 n h ih => exact ih (by omega)
  | case4 n h => omega

/-- The line before the start of a statement does not continue. -/
theorem not_continues_of_startFrom (h : 1 < d.startFrom m) :
    d.continues (d.startFrom m - 1) = false := by
  fun_induction startFrom d m with
  | case1 => omega
  | case2 => omega
  | case3 k hc ih => exact ih h
  | case4 k hc => simpa using hc

/-- Lines that continue up to a later one belong to the statement of that one. -/
theorem startFrom_eq_of_continues (hm : 1 ≤ m) (hmn : m ≤ n)
    (h : ∀ k, m ≤ k → k < n → d.continues k = true) : d.startFrom n = d.startFrom m := by
  induction n with
  | zero => omega
  | succ n ih =>
    rcases Nat.lt_or_ge n m with hlt | hge
    · rw [show m = n + 1 by omega]
    · obtain ⟨k, rfl⟩ : ∃ k, n = k + 1 := ⟨n - 1, by omega⟩
      rw [startFrom, if_pos (h (k + 1) hge (by omega))]
      exact ih hge fun j hj hjn => h j hj (by omega)

theorem statementStart_of_hasLine (hm : 1 ≤ m) (hle : m ≤ d.lineCount) :
    d.statementStart m = d.startFrom m := by
  rw [statementStart, Buffer.clampLine_of_hasLine hm hle]

theorem statementStart_le (hm : 1 ≤ m) (hle : m ≤ d.lineCount) : d.statementStart m ≤ m := by
  rw [statementStart_of_hasLine hm hle]
  exact d.startFrom_le m

theorem one_le_statementStart (d : Document) (m : Nat) : 1 ≤ d.statementStart m :=
  one_le_startFrom (d.buffer.clampLine_mem m).1

theorem statementStart_le_lineCount (d : Document) (m : Nat) : d.statementStart m ≤ d.lineCount :=
  Nat.le_trans (d.startFrom_le _) (d.buffer.clampLine_mem m).2

/-! ### Going on -/

theorem le_endFrom (d : Document) (n m : Nat) : m ≤ d.endFrom n m := by
  induction n generalizing m with
  | zero => exact Nat.le_refl m
  | succ n ih =>
    have := ih (m + 1)
    rw [endFrom]
    split <;> omega

theorem endFrom_le (d : Document) (n m : Nat) : d.endFrom n m ≤ m + n := by
  induction n generalizing m with
  | zero => exact Nat.le_refl m
  | succ n ih =>
    have := ih (m + 1)
    rw [endFrom]
    split <;> omega

/-- All lines before the end of a statement continue. -/
theorem continues_of_lt_endFrom {k : Nat} (hlo : m ≤ k) (hhi : k < d.endFrom n m) :
    d.continues k = true := by
  induction n generalizing m with
  | zero =>
    have : k < m := hhi
    omega
  | succ n ih =>
    rw [endFrom] at hhi
    split at hhi
    · next h =>
      by_cases hk : k = m
      · exact hk ▸ h
      · exact ih (by omega) hhi
    · omega

/-- Going on stops at a line that does not continue, or when no line is left. -/
theorem endFrom_cases (d : Document) (n m : Nat) :
    d.continues (d.endFrom n m) = false ∨ d.endFrom n m = m + n := by
  induction n generalizing m with
  | zero => exact .inr rfl
  | succ n ih =>
    rw [endFrom]
    split
    · exact (ih (m + 1)).imp_right fun h => by omega
    · next h => exact .inl (by simpa using h)

theorem statementEnd_of_hasLine (hm : 1 ≤ m) (hle : m ≤ d.lineCount) :
    d.statementEnd m = d.endFrom (d.lineCount - m) m := by
  rw [statementEnd, Buffer.clampLine_of_hasLine hm hle]

theorem statementEnd_mem (hm : 1 ≤ m) (hle : m ≤ d.lineCount) :
    m ≤ d.statementEnd m ∧ d.statementEnd m ≤ d.lineCount := by
  have hend := d.endFrom_le (d.lineCount - m) m
  rw [statementEnd_of_hasLine hm hle]
  exact ⟨d.le_endFrom _ _, by omega⟩

/-! ### Lines with code -/

/-- The nearest code line above a line lies above it and has code on it, and only blank lines and
comments stand between. -/
theorem previousCodeLine?_eq_some {p : Nat} (h : d.previousCodeLine? m = some p) :
    1 ≤ p ∧ p < m ∧ d.isBlankOrComment p = false ∧
      ∀ k, p < k → k < m → d.isBlankOrComment k = true := by
  fun_induction previousCodeLine? d m with
  | case1 => cases h
  | case2 => cases h
  | case3 n hc ih =>
    obtain ⟨hlo, hhi, hp, hbetween⟩ := ih h
    refine ⟨hlo, by omega, hp, fun k hk hkn => ?_⟩
    by_cases hkn' : k = n + 1
    · exact hkn' ▸ hc
    · exact hbetween k hk (by omega)
  | case4 n hc =>
    cases h
    exact ⟨by omega, by omega, by simpa using hc, fun k hk hkn => by omega⟩

end Document

end Offside
