import Offside.Proofs.StatementMotions

/-!
# Going back over blocks

Going back from a statement looks for a header no further up than the header of the block around it,
and takes that header if there is no other.  Nothing is missed by the bound: the header around the
statement is itself a header, so the search ends at the nearest header above, wherever that is.

* `Document.headersAbove`: the headers above a line;
* `Document.find?_or_head?`: the bounded search and the one without a bound;
* `Document.backwardBlock_of_statementAt?`: a single motion;
* `Document.visits_backwardBlock`: repeated motions;
* `backward_block_is_previous_header`.
-/

namespace Offside

namespace Document

variable {d : Document} {header line offset statement : Nat}

/-- The headers that start above a line. -/
def headersAbove (d : Document) (line : Nat) : Set Nat :=
  {l | d.StartsCode l ∧ d.isBlockHeader l = true ∧ l < line}

/-! ### The headers that are met -/

/-- The headers met going up from a line, nearest first. -/
def headersUpwards (d : Document) (line : Nat) : List Nat :=
  (d.statementsAbove line).filter d.isBlockHeader

theorem mem_headersUpwards_iff (hline : line ≤ d.lineCount + 1) :
    header ∈ d.headersUpwards line ↔ header ∈ d.headersAbove line := by
  unfold headersUpwards headersAbove
  rw [List.mem_filter, mem_statementsAbove_iff hline]
  constructor
  · rintro ⟨⟨hcode, hlt⟩, hheader⟩
    exact ⟨hcode, hheader, hlt⟩
  · rintro ⟨hcode, hheader, hlt⟩
    exact ⟨⟨hcode, hlt⟩, hheader⟩

theorem pairwise_headersUpwards (d : Document) (line : Nat) :
    (d.headersUpwards line).Pairwise (· > ·) :=
  (d.pairwise_statementsAbove line).filter _

/-- The headers above the nearest one are the others. -/
theorem headersUpwards_of_cons {rest : List Nat} (hline : line ≤ d.lineCount + 1)
    (h : d.headersUpwards line = header :: rest) : d.headersUpwards header = rest := by
  obtain ⟨pre, suf, habove, -, -, hrest⟩ := List.filter_eq_cons_iff.1 h
  rw [headersUpwards, statementsAbove_of_append hline habove, hrest]

theorem head?_headersUpwards_eq_some_iff (hline : line ≤ d.lineCount + 1) :
    (d.headersUpwards line).head? = some header ↔ IsGreatest (d.headersAbove line) header := by
  rw [head?_eq_some_iff_of_pairwise Nat.lt_asymm (d.pairwise_headersUpwards line),
    mem_headersUpwards_iff hline]
  refine and_congr_right fun _ => ?_
  constructor
  · intro hfirst k hk
    exact Nat.le_of_not_lt (hfirst k ((mem_headersUpwards_iff hline).2 hk))
  · intro hgreatest k hk
    exact Nat.not_lt.2 (hgreatest ((mem_headersUpwards_iff hline).1 hk))

theorem head?_headersUpwards_eq_none_iff (hline : line ≤ d.lineCount + 1) :
    (d.headersUpwards line).head? = none ↔ d.headersAbove line = ∅ := by
  rw [List.head?_eq_none_iff, List.eq_nil_iff_forall_not_mem, Set.eq_empty_iff_forall_notMem]
  simp only [mem_headersUpwards_iff hline]

/-! ### The bounded search -/

/-- Looking for a header down to the one around a line, and taking that one if there is none, is
looking for one without a bound. -/
theorem find?_or_head? (d : Document) (line : Nat) :
    (((d.statementsAbove line).takeWhile fun l =>
        decide ((d.enclosingHeaders line).head?.getD 0 < l)).find? d.isBlockHeader).or
      (d.enclosingHeaders line).head? = (d.headersUpwards line).head? := by
  rw [headersUpwards, List.head?_filter]
  cases haround : d.enclosingHeaders line with
  | nil =>
    -- without a bound the whole list is searched, since there is no line 0
    have hall : (d.statementsAbove line).takeWhile (fun l => decide (0 < l)) =
        d.statementsAbove line :=
      List.takeWhile_eq_self_iff.2 fun l hl => decide_eq_true (mem_statementsAbove hl).1
    rw [List.head?_nil, Option.getD_none, hall, Option.or_none]
  | cons parent rest =>
    obtain ⟨pre, suf, habove, -, -, hheader, -⟩ := exists_of_headersAround_eq_cons haround
    have hsorted := d.pairwise_statementsAbove line
    rw [habove] at hsorted ⊢
    have hpre : ∀ l ∈ pre, parent < l := fun l hl =>
      (List.pairwise_append.1 hsorted).2.2 l hl parent List.mem_cons_self
    have hbounded : (pre ++ parent :: suf).takeWhile (fun l => decide (parent < l)) = pre := by
      rw [List.takeWhile_append_of_pos fun l hl => decide_eq_true (hpre l hl)]
      simp
    rw [List.head?_cons, Option.getD_some, hbounded, List.find?_append,
      List.find?_cons_of_pos hheader]

/-- Going back leads to the header at the offset if that starts before it, and otherwise to the
nearest header above. -/
theorem backwardBlock_of_statementAt? (h : d.statementAt? offset = some statement) :
    d.backwardBlock offset =
      if d.isBlockHeader statement = true ∧ d.buffer.indentationEnd statement < offset then
        some (d.buffer.indentationEnd statement)
      else (d.headersUpwards statement).head?.map d.buffer.indentationEnd := by
  rw [backwardBlock, h, Option.bind_eq_bind, Option.bind_some]
  dsimp only
  rw [find?_or_head?]
  by_cases hheader : d.isBlockHeader statement = true
  · simp [hheader]
  · simp [hheader]

/-! ### Repeated motions -/

/-- Going back from the start of a statement visits the headers above it. -/
theorem visits_backwardBlock (h : d.StartsCode statement) :
    d.Visits .backwardBlock (d.buffer.indentationEnd statement)
      ((d.headersUpwards statement).map d.buffer.indentationEnd) := by
  generalize hlist : d.headersUpwards statement = headers
  induction headers generalizing statement with
  | nil =>
    refine .stop ?_
    show d.backwardBlock _ = none
    simp [backwardBlock_of_statementAt? (statementAt?_indentationEnd h), hlist]
  | cons first rest ih =>
    have hle : statement ≤ d.lineCount + 1 := Nat.le_succ_of_le h.mem.2
    have hfirst : d.StartsCode first :=
      ((mem_headersUpwards_iff hle).1 (hlist ▸ List.mem_cons_self)).1
    refine .go ?_ (ih hfirst (headersUpwards_of_cons hle hlist))
    show d.backwardBlock _ = some _
    simp [backwardBlock_of_statementAt? (statementAt?_indentationEnd h), hlist]

/-- The header around the statement at an offset is one of the headers above it. -/
theorem mem_headersUpwards_of_upBlock {target : Nat} (h : d.statementAt? offset = some statement)
    (hup : d.upBlock offset = some target) :
    target ∈ (d.headersUpwards statement).map d.buffer.indentationEnd := by
  have hcode := startsCode_of_statementAt? h
  rw [upBlock, h, Option.bind_eq_bind, Option.bind_some] at hup
  obtain ⟨header, hheader, rfl⟩ := Option.map_eq_some_iff.1 hup
  have hencloses := encloses_of_mem_enclosingHeaders hcode (List.mem_of_head? hheader)
  refine List.mem_map_of_mem ((mem_headersUpwards_iff (Nat.le_succ_of_le hcode.mem.2)).2 ?_)
  exact ⟨hencloses.startsCode, hencloses.isHeader, hencloses.lt⟩

end Document

/-- **Going back leads to the previous header.**  Let `S` be the statement at an offset.  Going back
over blocks leads to the start of `S` if `S` is a header that starts before the offset.  Otherwise
it leads to the start of the nearest header above `S`, and nowhere exactly if there is none.  So
going back again and again from the start of `S` visits the starts of all headers above `S`, from
bottom to top; the header of the block around `S` is one of them. -/
theorem backward_block_is_previous_header (d : Document) (offset statement : Nat)
    (h : d.statementAt? offset = some statement) :
    (d.isBlockHeader statement = true ∧ d.buffer.indentationEnd statement < offset →
      d.backwardBlock offset = some (d.buffer.indentationEnd statement)) ∧
    (¬ (d.isBlockHeader statement = true ∧ d.buffer.indentationEnd statement < offset) →
      (∀ target, d.backwardBlock offset = some target ↔
        ∃ header, IsGreatest (d.headersAbove statement) header ∧
          d.buffer.indentationEnd header = target) ∧
      (d.backwardBlock offset = none ↔ d.headersAbove statement = ∅)) ∧
    ∃ headers : List Nat, headers.Pairwise (· > ·) ∧
      (∀ line, line ∈ headers ↔ line ∈ d.headersAbove statement) ∧
      d.Visits .backwardBlock (d.buffer.indentationEnd statement)
        (headers.map d.buffer.indentationEnd) ∧
      ∀ target, d.upBlock offset = some target → target ∈ headers.map d.buffer.indentationEnd := by
  have hcode := Document.startsCode_of_statementAt? h
  have hle : statement ≤ d.lineCount + 1 := Nat.le_succ_of_le hcode.mem.2
  have hmotion := Document.backwardBlock_of_statementAt? h
  refine ⟨fun hstart => ?_, fun hstart => ?_, d.headersUpwards statement,
    d.pairwise_headersUpwards statement, fun line => Document.mem_headersUpwards_iff hle,
    Document.visits_backwardBlock hcode,
    fun target hup => Document.mem_headersUpwards_of_upBlock h hup⟩
  · rw [hmotion, if_pos hstart]
  · rw [hmotion, if_neg hstart]
    constructor
    · intro target
      simp only [Option.map_eq_some_iff, Document.head?_headersUpwards_eq_some_iff hle]
    · rw [Option.map_eq_none_iff, Document.head?_headersUpwards_eq_none_iff hle]

/-- A misindented statement that no block is around, although there are headers above it; the
nearest of them is nested in a block further up. -/
theorem backward_block_is_previous_header_from_misindented :
    let d := Document.ofText "class A:\n  if b:\n    c\nd\n    e\n".toList
    (d.statementAt? 27 = some 5 ∧ d.upBlock 27 = none) ∧
      (d.isBlockHeader 5 = false ∧ d.backwardBlock 27 = some 11) ∧
      (∃ header, IsGreatest (d.headersAbove 5) header ∧ d.buffer.indentationEnd header = 11) ∧
      d.upBlock 21 = some 11 := by
  intro d
  have hat : d.statementAt? 27 = some 5 := by decide +kernel
  have hheader : d.isBlockHeader 5 = false := by decide +kernel
  have hback : d.backwardBlock 27 = some 11 := by decide +kernel
  obtain ⟨-, hnearest, -⟩ := backward_block_is_previous_header d 27 5 hat
  refine ⟨⟨hat, by decide +kernel⟩, ⟨hheader, hback⟩, ?_, by decide +kernel⟩
  exact ((hnearest (by simp [hheader])).1 11).1 hback

end Offside
