import Offside.Proofs.BlankLines

/-!
# Code lines and statements

Between the end of a statement and the next code line there are only blank lines and comments, none
of which continues.  So the next code line starts a statement, its status goes by the statement
before it, and going down from the top meets every statement with code on its first line.

* `Document.nextCodeLine?_eq_some_iff`: the nearest code line below;
* `Document.status_nextCodeLine?`: it goes by the statement before it;
* `Document.mem_statementsAfter_zero`: the statements met from the top.
-/

namespace Offside

open Lexical
open Text (size)

/-! ### Keywords -/

theorem BlockKeyword.exists_name (k : BlockKeyword) :
    ∃ c r, k.name.toList = c :: r ∧ isWhiteSpace c = false ∧ c ≠ '#' := by
  cases k <;> exact ⟨_, _, rfl, rfl, by decide⟩

/-- A word at the start of a text begins the text. -/
theorem Text.head?_of_word {t r : Text} {c : Char} (h : t.word = c :: r) : t.head? = some c := by
  obtain ⟨u, hu⟩ := List.takeWhile_prefix (l := t) isWordChar
  rw [← hu, show t.takeWhile isWordChar = c :: r from h]
  rfl

/-- Only a leading `async` is passed over. -/
theorem Text.afterAsync_of_word_ne {t : Text} (h : t.word ≠ "async".toList) : t.afterAsync = t := by
  rw [Text.afterAsync, if_neg]
  simp only [Bool.and_eq_true, beq_iff_eq]
  exact fun hasync => h hasync.1

/-- A line that starts with a block keyword starts with a letter. -/
theorem head?_of_blockKeyword? {t : Text} (h : (blockKeyword? t).isSome = true) :
    ∃ c, t.afterIndentation.head? = some c ∧ isWhiteSpace c = false ∧ c ≠ '#' := by
  have hend : (blockKeywordEnd? t).isSome = true := by simpa [blockKeyword?] using h
  unfold blockKeywordEnd? at hend
  dsimp only at hend
  split at hend
  · next k hk =>
    have hword : k.name.toList = t.afterIndentation.afterAsync.word := by
      simpa using List.find?_some hk
    obtain ⟨c, r, hname, hspace, hhash⟩ := k.exists_name
    by_cases hasync : t.afterIndentation.word = "async".toList
    · exact ⟨'a', Text.head?_of_word (r := "sync".toList) hasync, rfl, by decide⟩
    · rw [hname, Text.afterAsync_of_word_ne hasync] at hword
      exact ⟨c, Text.head?_of_word hword.symm, hspace, hhash⟩
  · cases hend

namespace Document

variable {d : Document} {line m n : Nat}

theorem isBlankOrComment_of_blockKeyword?
    (h : (blockKeyword? (d.buffer.lineText m)).isSome = true) : d.isBlankOrComment m = false := by
  obtain ⟨c, hhead, hspace, hhash⟩ := head?_of_blockKeyword? h
  obtain ⟨r, hr⟩ : ∃ r, (d.buffer.lineText m).afterIndentation = c :: r :=
    List.head?_eq_some_iff.1 hhead
  have htrim : (d.buffer.lineText m).trimStart = c :: r := by
    rw [← Text.trimStart_afterIndentation, hr, Text.trimStart, List.dropWhile_cons_of_neg]
    simp [hspace]
  simp [isBlankOrComment, htrim, hhash]

/-! ### The next code line -/

theorem nextCodeLine?_eq_some_iff :
    d.nextCodeLine? m = some n ↔ m < n ∧ n ≤ d.lineCount ∧ d.isBlankOrComment n = false ∧
      ∀ k, m < k → k < n → d.isBlankOrComment k = true := by
  rw [nextCodeLine?, List.find?_range'_eq_some, List.mem_range'_1]
  simp only [Bool.not_eq_true', Bool.not_not]
  constructor
  · rintro ⟨hn, ⟨hlo, hhi⟩, hbetween⟩
    exact ⟨by omega, by omega, hn, fun k hk hkn => hbetween k hk hkn⟩
  · rintro ⟨hlo, hhi, hn, hbetween⟩
    exact ⟨hn, ⟨by omega, by omega⟩, fun k hk hkn => hbetween k hk hkn⟩

/-- A line is the start of its statement exactly if the line before it does not continue. -/
theorem startFrom_eq_self_iff (hm : 1 ≤ m) :
    d.startFrom m = m ↔ m = 1 ∨ d.continues (m - 1) = false := by
  constructor
  · intro h
    by_cases hone : m = 1
    · exact .inl hone
    · refine .inr ?_
      have hnot := not_continues_of_startFrom (d := d) (m := m) (by omega)
      rwa [h] at hnot
  · rintro (rfl | h)
    · rfl
    · by_cases hone : m = 1
      · rw [hone]
        rfl
      · obtain ⟨k, rfl⟩ : ∃ k, m = k + 2 := ⟨m - 2, by omega⟩
        rw [show k + 2 - 1 = k + 1 by omega] at h
        rw [startFrom, h]
        simp

/-- The lines from the end of a statement up to the next code line do not continue. -/
theorem not_continues_before_nextCodeLine? (hline : line = 0 ∨ d.continues line = false)
    (h : d.nextCodeLine? line = some n) {k : Nat} (hk : 1 ≤ k) (hlo : line ≤ k) (hhi : k < n) :
    d.continues k = false := by
  obtain ⟨-, hn, -, hblank⟩ := nextCodeLine?_eq_some_iff.1 h
  induction k with
  | zero => omega
  | succ k ih =>
    by_cases hfirst : line = k + 1
    · subst hfirst
      exact hline.resolve_left (by omega)
    · refine not_continues_of_isBlankOrComment hk (by omega) ?_ (hblank _ (by omega) hhi)
      by_cases hzero : k = 0
      · exact .inl (by omega)
      · exact .inr (ih (by omega) (by omega) (by omega))

/-- The next code line starts a statement. -/
theorem startFrom_nextCodeLine? (hline : line = 0 ∨ d.continues line = false)
    (h : d.nextCodeLine? line = some n) : d.startFrom n = n := by
  obtain ⟨hlt, -, -⟩ := nextCodeLine?_eq_some_iff.1 h
  refine (startFrom_eq_self_iff (by omega)).2 ?_
  by_cases hone : n = 1
  · exact .inl hone
  · exact .inr (not_continues_before_nextCodeLine? hline h (by omega) (by omega) (by omega))

/-! ### The end of a statement -/

theorem not_continues_statementEnd (hm : 1 ≤ m) (hle : m ≤ d.lineCount)
    (hlt : d.statementEnd m < d.lineCount) : d.continues (d.statementEnd m) = false := by
  rw [statementEnd_of_hasLine hm hle] at hlt ⊢
  exact (d.endFrom_cases (d.lineCount - m) m).resolve_right (by omega)

/-! ### The status of the next code line -/

/-- With a code line above there is a nearest one. -/
theorem exists_previousCodeLine? (hm : 1 ≤ m) (hmn : m < n) (hcode : d.isBlankOrComment m = false) :
    ∃ p, d.previousCodeLine? n = some p ∧ m ≤ p := by
  fun_induction previousCodeLine? d n with
  | case1 => omega
  | case2 => omega
  | case3 k hk ih =>
    refine ih ?_
    by_contra hge
    obtain rfl : m = k + 1 := by omega
    rw [hcode] at hk
    cases hk
  | case4 k hk => exact ⟨k + 1, rfl, by omega⟩

/-- The line before the next code line does not continue. -/
theorem not_continues_of_next (hm : 1 ≤ m) (hle : m ≤ d.lineCount)
    (h : d.nextCodeLine? (d.statementEnd m) = some n) : d.continues (n - 1) = false := by
  obtain ⟨hlt, hn, -⟩ := nextCodeLine?_eq_some_iff.1 h
  have hend := statementEnd_mem hm hle
  exact not_continues_before_nextCodeLine? (.inr (not_continues_statementEnd hm hle (by omega))) h
    (by omega) (by omega) (by omega)

/-- The next code line after a statement with code on its first line goes by that statement. -/
theorem status_nextCodeLine? (hstart : d.statementStart m = m) (hcode : d.isBlankOrComment m = false)
    (h : d.nextCodeLine? (d.statementEnd m) = some n) : d.status n = d.statusAfter m := by
  have hm : 1 ≤ m := hstart ▸ d.one_le_statementStart m
  have hle : m ≤ d.lineCount := hstart ▸ d.statementStart_le_lineCount m
  obtain ⟨hlt, hn, -, hblank⟩ := nextCodeLine?_eq_some_iff.1 h
  obtain ⟨hend, -⟩ := statementEnd_mem hm hle
  have hlast := not_continues_of_next hm hle h
  -- the nearest code line above is one of the statement, since only blank lines follow its end
  obtain ⟨p, hp, hmp⟩ := exists_previousCodeLine? hm (show m < n by omega) hcode
  obtain ⟨-, hpn, hpcode, -⟩ := previousCodeLine?_eq_some hp
  have hpend : p ≤ d.statementEnd m := by
    by_contra hgt
    rw [hblank p (by omega) hpn] at hpcode
    cases hpcode
  have hpstart : d.statementStart p = m := by
    rw [statementStart_of_hasLine hm hle] at hstart
    rw [statementEnd_of_hasLine hm hle] at hpend
    have hcontinues : ∀ k, m ≤ k → k < p → d.continues k = true := fun k hk hkp =>
      continues_of_lt_endFrom hk (Nat.lt_of_lt_of_le hkp hpend)
    rw [statementStart_of_hasLine (by omega) (by omega),
      startFrom_eq_of_continues hm hmp hcontinues, hstart]
  obtain ⟨k, rfl⟩ : ∃ k, n = k + 1 := ⟨n - 1, by omega⟩
  rw [status_of_not_continues (by omega) hn hlast, hp, Option.elim_some, statusAfter, statusAfter,
    hpstart, hstart]

/-! ### Statements from the top -/

/-- Whether a line is the first one of a statement and has code on it. -/
def StartsCode (d : Document) (line : Nat) : Prop :=
  d.statementStart line = line ∧ d.isBlankOrComment line = false

theorem StartsCode.mem (h : d.StartsCode m) : 1 ≤ m ∧ m ≤ d.lineCount :=
  ⟨h.1 ▸ d.one_le_statementStart m, h.1 ▸ d.statementStart_le_lineCount m⟩

/-- The next code line starts a statement. -/
theorem startsCode_nextCodeLine? (hline : line = 0 ∨ d.continues line = false)
    (h : d.nextCodeLine? line = some n) : d.StartsCode n := by
  obtain ⟨hlt, hn, hcode, -⟩ := nextCodeLine?_eq_some_iff.1 h
  refine ⟨?_, hcode⟩
  rw [statementStart_of_hasLine (by omega) hn, startFrom_nextCodeLine? hline h]

/-- All that is met going down from the end of a statement are first lines of statements with code
on them. -/
theorem startsCode_of_mem_afterFrom {k : Nat}
    (hline : line < d.lineCount → line = 0 ∨ d.continues line = false)
    (h : m ∈ d.afterFrom k line) : d.StartsCode m := by
  induction k generalizing line with
  | zero => cases h
  | succ k ih =>
    rw [afterFrom] at h
    cases hnext : d.nextCodeLine? line with
    | none =>
      rw [hnext] at h
      cases h
    | some n =>
      rw [hnext] at h
      obtain ⟨hlt, hle, -⟩ := nextCodeLine?_eq_some_iff.1 hnext
      have hn := startsCode_nextCodeLine? (hline (by omega)) hnext
      rcases List.mem_cons.1 h with rfl | h
      · exact hn
      · exact ih (fun hend => .inr (not_continues_statementEnd (by omega) hle hend)) h

/-- Going down from the end of a statement, no first line of a statement with code on it is passed
over. -/
theorem mem_afterFrom {k : Nat} (hm : d.StartsCode m) (hlt : line < m)
    (hk : d.lineCount ≤ line + k) : m ∈ d.afterFrom k line := by
  obtain ⟨hlo, hhi⟩ := hm.mem
  induction k generalizing line with
  | zero => omega
  | succ k ih =>
    obtain ⟨n, hnext⟩ : ∃ n, d.nextCodeLine? line = some n := by
      refine Option.isSome_iff_exists.1 (List.find?_isSome.2 ⟨m, ?_, by simp [hm.2]⟩)
      exact List.mem_range'_1.2 ⟨hlt, by omega⟩
    obtain ⟨hlt', hn, -, hblank⟩ := nextCodeLine?_eq_some_iff.1 hnext
    rw [afterFrom, hnext]
    by_cases hfirst : n = m
    · exact hfirst ▸ List.mem_cons_self
    · have hnm : n < m := by
        by_contra hge
        have := hblank m hlt (by omega)
        rw [hm.2] at this
        cases this
      -- the statement of the line met first ends above, since the line before `m` does not continue
      have hend : d.statementEnd n < m := by
        have hstart := hm.1
        rw [statementStart_of_hasLine hlo hhi, startFrom_eq_self_iff hlo] at hstart
        have hlast := hstart.resolve_left (by omega)
        rw [statementEnd_of_hasLine (by omega) hn]
        by_contra hge
        rw [continues_of_lt_endFrom (m := n) (n := d.lineCount - n) (by omega) (by omega)] at hlast
        cases hlast
      have hge := (statementEnd_mem (d := d) (m := n) (by omega) hn).1
      exact List.mem_cons_of_mem n (ih hend (by omega))

/-- The statements met from the top are those with code on their first line. -/
theorem mem_statementsAfter_zero : m ∈ d.statementsAfter 0 ↔ d.StartsCode m := by
  constructor
  · exact startsCode_of_mem_afterFrom fun _ => .inl rfl
  · intro h
    exact mem_afterFrom h h.mem.1 (by omega)

end Document

theorem SameStatements.startsCode_iff {d e : Document} (h : SameStatements d e) (m : Nat) :
    d.StartsCode m ↔ e.StartsCode m := by
  rw [Document.StartsCode, Document.StartsCode, h.statementStart_eq, h.isBlankOrComment_eq]

end Offside
