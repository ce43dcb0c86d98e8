import Offside.Proofs.Neighbours
import Mathlib.Order.Bounds.Basic

/-!
# Blocks nest

The block of a statement goes on for as long as the statements below it are deeper.  Its last line
is found by walking from statement to statement; lines without code and further lines of statements
do not count, whatever their indentation.

* `Document.InBlock`: a line down to which all statements are deeper than a header;
* `Document.exists_blockEnd`: where a block ends;
* `Document.le_blockEnd_iff`: the statements of a block;
* `InBlock.trans`: blocks within blocks;
* `blocks_nest`.
-/

namespace Offside

/-- The elements of a sorted list that come before the first one without a property are those up to
which all have it. -/
theorem mem_takeWhile_iff_of_pairwise {p : Nat → Bool} {l : List Nat} (h : l.Pairwise (· < ·))
    {m : Nat} : m ∈ l.takeWhile p ↔ m ∈ l ∧ ∀ k ∈ l, k ≤ m → p k = true := by
  induction l with
  | nil => simp
  | cons a l ih =>
    obtain ⟨ha, hl⟩ := List.pairwise_cons.1 h
    by_cases hp : p a = true
    · rw [List.takeWhile_cons_of_pos hp, List.mem_cons, List.mem_cons, ih hl, List.forall_mem_cons]
      constructor
      · rintro (rfl | ⟨hm, hall⟩)
        · refine ⟨.inl rfl, fun _ => hp, fun k hk hle => ?_⟩
          have := ha k hk
          omega
        · exact ⟨.inr hm, fun _ => hp, hall⟩
      · rintro ⟨rfl | hm, -, hall⟩
        · exact .inl rfl
        · exact .inr ⟨hm, hall⟩
    · rw [List.takeWhile_cons_of_neg hp]
      constructor
      · intro hm
        cases hm
      · rintro ⟨hm, hall⟩
        refine absurd (hall a List.mem_cons_self ?_) hp
        rcases List.mem_cons.1 hm with rfl | hm
        · exact Nat.le_refl _
        · exact Nat.le_of_lt (ha m hm)

/-- The last element of a sorted list is the largest one. -/
theorem le_of_getLast?_of_pairwise {l : List Nat} (h : l.Pairwise (· < ·)) {m n : Nat}
    (hlast : l.getLast? = some n) (hm : m ∈ l) : m ≤ n := by
  obtain ⟨front, rfl⟩ := List.getLast?_eq_some_iff.1 hlast
  rcases List.mem_append.1 hm with hm | hm
  · exact Nat.le_of_lt ((List.pairwise_append.1 h).2.2 m hm n (List.mem_singleton_self n))
  · exact Nat.le_of_eq (List.mem_singleton.1 hm)

namespace Document

variable {d : Document} {header line m n : Nat}

/-- Whether all statements with code below a header, down to a line, are deeper than the header. -/
def InBlock (d : Document) (header line : Nat) : Prop :=
  header ≤ line ∧ ∀ s, d.StartsCode s → header < s → s ≤ line →
    d.buffer.indentation header < d.buffer.indentation s

theorem InBlock.refl (d : Document) (header : Nat) : d.InBlock header header :=
  ⟨Nat.le_refl _, fun s _ hlt hle => by omega⟩

/-- What is in a block of a block is in the block. -/
theorem InBlock.trans (hm : d.StartsCode m) (h : d.InBlock header m) (h' : d.InBlock m n) :
    d.InBlock header n := by
  refine ⟨Nat.le_trans h.1 h'.1, fun s hs hlt hle => ?_⟩
  rcases Nat.lt_or_ge m s with hms | hsm
  · rcases Nat.eq_or_lt_of_le h.1 with rfl | hheader
    · exact h'.2 s hs hms hle
    · exact Nat.lt_trans (h.2 m hm hheader (Nat.le_refl m)) (h'.2 s hs hms hle)
  · exact h.2 s hs hlt hsm

theorem InBlock.mono (h : d.InBlock header n) (hlo : header ≤ m) (hhi : m ≤ n) :
    d.InBlock header m :=
  ⟨hlo, fun s hs hlt hle => h.2 s hs hlt (Nat.le_trans hle hhi)⟩

/-- A block ends with the last of the statements that are in it. -/
theorem exists_blockEnd (h : d.StartsCode header) :
    ∃ last, IsGreatest {t | d.StartsCode t ∧ d.InBlock header t} last ∧
      d.blockEnd header = d.statementEnd last := by
  obtain ⟨hone, hle⟩ := h.mem
  have hsorted := d.pairwise_statementsAfter (d.statementEnd header)
  -- the body consists of the statements below the header that are in its block
  have hbody : ∀ t, t ∈ (d.statementsBelow header).takeWhile (fun l =>
      decide (d.buffer.indentation header < d.buffer.indentation l)) ↔
        header < t ∧ d.StartsCode t ∧ d.InBlock header t := by
    intro t
    rw [statementsBelow, mem_takeWhile_iff_of_pairwise hsorted, ← statementsBelow,
      mem_statementsBelow_iff hone hle]
    simp only [mem_statementsBelow_iff hone hle, decide_eq_true_eq]
    constructor
    · rintro ⟨⟨ht, hlt⟩, hall⟩
      exact ⟨hlt, ht, Nat.le_of_lt hlt, fun s hs hhs hst => hall s ⟨hs, hhs⟩ hst⟩
    · rintro ⟨hlt, ht, -, hall⟩
      exact ⟨⟨ht, hlt⟩, fun s hs hst => hall s hs.1 hs.2 hst⟩
  rw [blockEnd]
  cases hlast : ((d.statementsBelow header).takeWhile fun l =>
      decide (d.buffer.indentation header < d.buffer.indentation l)).getLast? with
  | none =>
    rw [List.getLast?_eq_none_iff] at hlast
    refine ⟨header, ⟨⟨h, .refl d header⟩, ?_⟩, rfl⟩
    rintro t ⟨ht, hblock⟩
    by_contra hlt
    have hmem := (hbody t).2 ⟨by omega, ht, hblock⟩
    rw [hlast] at hmem
    cases hmem
  | some last =>
    obtain ⟨hlt, hcode, hblock⟩ := (hbody last).1 (List.mem_of_getLast? hlast)
    refine ⟨last, ⟨⟨hcode, hblock⟩, ?_⟩, rfl⟩
    rintro t ⟨ht, htblock⟩
    rcases Nat.eq_or_lt_of_le htblock.1 with rfl | hheader
    · exact Nat.le_of_lt hlt
    · exact le_of_getLast?_of_pairwise (hsorted.sublist (List.takeWhile_sublist _)) hlast
        ((hbody t).2 ⟨hheader, ht, htblock⟩)

/-- A statement belongs to a block exactly if it does not start below its end. -/
theorem le_blockEnd_iff (h : d.StartsCode header) (hm : d.StartsCode m) (hle : header ≤ m) :
    m ≤ d.blockEnd header ↔ d.InBlock header m := by
  obtain ⟨last, ⟨⟨hlast, hblock⟩, hgreatest⟩, hend⟩ := exists_blockEnd h
  rw [hend]
  constructor
  · intro hmend
    -- a statement that starts before another one ends is not a later one
    have hml : m ≤ last := by
      by_contra hlt
      have := hm.statementEnd_lt hlast.mem.1 (show last < m by omega)
      omega
    exact hblock.mono hle hml
  · intro hmblock
    exact Nat.le_trans (hgreatest ⟨hm, hmblock⟩) (statementEnd_mem hlast.mem.1 hlast.mem.2).1

/-- Statements start and end in the same order. -/
theorem statementEnd_le_of_le (hm : d.StartsCode m) (hn : d.StartsCode n) (hle : m ≤ n) :
    d.statementEnd m ≤ d.statementEnd n := by
  rcases Nat.eq_or_lt_of_le hle with rfl | hlt
  · exact Nat.le_refl _
  · have hend := hn.statementEnd_lt hm.mem.1 hlt
    have hend' := (statementEnd_mem hn.mem.1 hn.mem.2).1
    omega

/-- A block ends no earlier than the statements in it. -/
theorem statementEnd_le_blockEnd (h : d.StartsCode header) (hm : d.StartsCode m)
    (hblock : d.InBlock header m) : d.statementEnd m ≤ d.blockEnd header := by
  obtain ⟨last, ⟨⟨hlast, -⟩, hgreatest⟩, hend⟩ := exists_blockEnd h
  rw [hend]
  exact statementEnd_le_of_le hm hlast (hgreatest ⟨hm, hblock⟩)

/-- The block of a statement in a block ends in that block. -/
theorem blockEnd_le_of_inBlock (h : d.StartsCode header) (hm : d.StartsCode m)
    (hblock : d.InBlock header m) : d.blockEnd m ≤ d.blockEnd header := by
  obtain ⟨last, ⟨⟨hlast, -⟩, hgreatest⟩, hend⟩ := exists_blockEnd h
  obtain ⟨last', ⟨⟨hlast', hblock'⟩, -⟩, hend'⟩ := exists_blockEnd hm
  have hle : last' ≤ last := hgreatest ⟨hlast', hblock.trans hm hblock'⟩
  rw [hend, hend']
  exact statementEnd_le_of_le hlast' hlast hle

end Document

/-- **Blocks nest.**  The block of a statement with code ends with the last line of the last
statement, counted from this one on, down to which all statements below it are deeper.  So of two
blocks either the first ends above the second, or the second ends no later than the first. -/
theorem blocks_nest (d : Document) :
    (∀ header, d.StartsCode header →
      ∃ last, IsGreatest {t | d.StartsCode t ∧ header ≤ t ∧ ∀ s, d.StartsCode s → header < s →
          s ≤ t → d.buffer.indentation header < d.buffer.indentation s} last ∧
        d.blockEnd header = d.statementEnd last) ∧
    ∀ h₁ h₂, d.StartsCode h₁ → d.StartsCode h₂ → h₁ < h₂ →
      d.blockEnd h₁ < h₂ ∨ d.blockEnd h₂ ≤ d.blockEnd h₁ := by
  constructor
  · intro header h
    exact Document.exists_blockEnd h
  · intro h₁ h₂ hfirst hsecond hlt
    by_cases hend : d.blockEnd h₁ < h₂
    · exact .inl hend
    · have hblock := (Document.le_blockEnd_iff hfirst hsecond (Nat.le_of_lt hlt)).1 (by omega)
      exact .inr (Document.blockEnd_le_of_inBlock hfirst hsecond hblock)

/-- A class with a method whose body holds a string and brackets that go back to the first column. -/
theorem blocks_nest_with_string :
    let d := Document.ofText "class A:\n        def f():\n\t x = '''\na'''\n\n# b\n\t y(\n)\nz".toList
    (d.StartsCode 1 ∧ d.StartsCode 2) ∧ (d.blockEnd 1 = 8 ∧ d.blockEnd 2 = 8) ∧
      (d.blockEnd 1 < 2 ∨ d.blockEnd 2 ≤ d.blockEnd 1) := by
  intro d
  have hone : d.StartsCode 1 := by unfold Document.StartsCode; decide +kernel
  have htwo : d.StartsCode 2 := by unfold Document.StartsCode; decide +kernel
  refine ⟨⟨hone, htwo⟩, ⟨by decide +kernel, by decide +kernel⟩, ?_⟩
  exact (blocks_nest d).2 1 2 hone htwo (by decide)

end Offside
