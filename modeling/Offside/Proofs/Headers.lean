import Offside.Proofs.Blocks

/-!
# The headers around a statement

Going up from a statement, each header around it is shallower than everything met before.  So the
statement lies in the block of every header around it, and the headers around the innermost of them
are the others.

* `Document.exists_of_headersAround_eq_cons`: the first header that is found;
* `Document.enclosingHeaders_of_append`: the headers around a header;
* `Document.Encloses`, `encloses_of_mem_enclosingHeaders`: what a header around a statement is;
* `Document.inBlock_of_blockOf?`: the block that a statement belongs to;
* `Document.definitionsFrom`, `definitionsFrom_eq`: a definition and those around it, one step at a
  time.
-/

namespace Offside

namespace Document

variable {d : Document} {header line threshold : Nat} {above rest : List Nat}

/-- Up to the first header that is found nothing is shallower than the threshold, and the search
goes on from it at its column. -/
theorem exists_of_headersAround_eq_cons (h : d.headersAround threshold above = header :: rest) :
    ∃ pre suf, above = pre ++ header :: suf ∧ (∀ l ∈ pre, threshold ≤ d.buffer.indentation l) ∧
      d.buffer.indentation header < threshold ∧ d.isBlockHeader header = true ∧
      d.headersAround (d.buffer.indentation header) suf = rest := by
  induction above with
  | nil => cases h
  | cons l above ih =>
    rw [headersAround] at h
    by_cases hlt : d.buffer.indentation l < threshold
    · rw [if_pos hlt] at h
      by_cases hheader : d.isBlockHeader l = true
      · rw [if_pos hheader] at h
        obtain ⟨rfl, hrest⟩ := List.cons_eq_cons.1 h
        exact ⟨[], above, rfl, by simp, hlt, hheader, hrest⟩
      · rw [if_neg hheader] at h
        cases h
    · rw [if_neg hlt] at h
      obtain ⟨pre, suf, rfl, hpre, hspec⟩ := ih h
      refine ⟨l :: pre, suf, rfl, ?_, hspec⟩
      intro k hk
      rcases List.mem_cons.1 hk with rfl | hk
      · exact Nat.le_of_not_lt hlt
      · exact hpre k hk

/-- The headers around the innermost header around a line are the others. -/
theorem enclosingHeaders_of_cons (hline : line ≤ d.lineCount + 1)
    (h : d.enclosingHeaders line = header :: rest) : d.enclosingHeaders header = rest := by
  obtain ⟨pre, suf, habove, -, -, -, hrest⟩ := exists_of_headersAround_eq_cons h
  rw [enclosingHeaders, statementsAbove_of_append hline habove, hrest]

/-- The headers around one of the headers around a line are those listed after it. -/
theorem enclosingHeaders_of_append {pre : List Nat} (hline : line ≤ d.lineCount + 1)
    (h : d.enclosingHeaders line = pre ++ header :: rest) : d.enclosingHeaders header = rest := by
  induction pre generalizing line with
  | nil => exact enclosingHeaders_of_cons hline h
  | cons l pre ih =>
    have hlt := (mem_enclosingHeaders (h ▸ List.mem_cons_self : l ∈ d.enclosingHeaders line)).2
    exact ih (by omega) (enclosingHeaders_of_cons hline h)

/-- Whether a header encloses a statement: it starts above it, and the statement is in its block. -/
structure Encloses (d : Document) (header line : Nat) : Prop where
  startsCode : d.StartsCode header
  isHeader : d.isBlockHeader header = true
  lt : header < line
  inBlock : d.InBlock header line

/-- Headers around a statement enclose it. -/
theorem encloses_of_mem_enclosingHeaders (hline : d.StartsCode line)
    (h : header ∈ d.enclosingHeaders line) : d.Encloses header line := by
  obtain ⟨-, hle⟩ := hline.mem
  generalize hlist : d.enclosingHeaders line = headers at h
  induction headers generalizing line with
  | nil => cases h
  | cons first rest ih =>
    obtain ⟨pre, suf, habove, hpre, hlt, hheader, -⟩ := exists_of_headersAround_eq_cons hlist
    have hfirst : first ∈ d.statementsAbove line := by
      rw [habove]
      exact List.mem_append_right pre List.mem_cons_self
    obtain ⟨hcode, hbelow⟩ := (mem_statementsAbove_iff (by omega)).1 hfirst
    -- statements between are among those passed over, which are no shallower than the line
    have hblock : d.InBlock first line := by
      refine ⟨Nat.le_of_lt hbelow, fun s hs hfs hsl => ?_⟩
      rcases Nat.eq_or_lt_of_le hsl with rfl | hsl
      · exact hlt
      · have hmem : s ∈ pre ++ first :: suf := by
          rw [← habove]
          exact (mem_statementsAbove_iff (by omega)).2 ⟨hs, hsl⟩
        have hsorted := d.pairwise_statementsAbove line
        rw [habove] at hsorted
        rcases List.mem_append.1 hmem with hs' | hs'
        · exact Nat.lt_of_lt_of_le hlt (hpre s hs')
        · rcases List.mem_cons.1 hs' with rfl | hs'
          · omega
          · have := (List.pairwise_cons.1 (List.pairwise_append.1 hsorted).2.1).1 s hs'
            omega
    rcases List.mem_cons.1 h with rfl | h
    · exact ⟨hcode, hheader, hbelow, hblock⟩
    · have houter := ih hcode hcode.mem.2 (enclosingHeaders_of_cons (by omega) hlist) h
      exact ⟨houter.startsCode, houter.isHeader, Nat.lt_trans houter.lt hbelow,
        houter.inBlock.trans hcode hblock⟩

/-- A statement is in the block that it belongs to. -/
theorem inBlock_of_blockOf? (hline : d.StartsCode line) (h : d.blockOf? line = some header) :
    d.StartsCode header ∧ d.InBlock header line := by
  rw [blockOf?] at h
  split at h
  · cases h
    exact ⟨hline, .refl d _⟩
  · have hencloses := encloses_of_mem_enclosingHeaders hline (List.mem_of_head? h)
    exact ⟨hencloses.startsCode, hencloses.inBlock⟩

/-! ### Definitions around a definition -/

/-- A definition and the definitions around it, innermost first. -/
def definitionsFrom (d : Document) (header : Nat) : List Nat :=
  header :: (d.enclosingHeaders header).filter d.isDefinition

/-- After a definition come the innermost one around it and those around that one. -/
theorem definitionsFrom_eq (hle : header ≤ d.lineCount) :
    d.definitionsFrom header =
      header :: ((d.enclosingHeaders header).find? d.isDefinition).elim [] d.definitionsFrom := by
  rw [definitionsFrom]
  congr 1
  cases hfind : (d.enclosingHeaders header).find? d.isDefinition with
  | none =>
    rw [Option.elim_none]
    exact List.filter_eq_nil_iff.2 (List.find?_eq_none.1 hfind)
  | some outer =>
    rw [← List.head?_filter] at hfind
    obtain ⟨rest, hfilter⟩ := List.head?_eq_some_iff.1 hfind
    obtain ⟨pre, suf, hlist, -, -, hrest⟩ := List.filter_eq_cons_iff.1 hfilter
    rw [Option.elim_some, definitionsFrom, enclosingHeaders_of_append (by omega) hlist, hrest,
      hfilter]

end Document

end Offside
