import Offside.Proofs.Enclosing
import Mathlib.Logic.Relation
import Mathlib.Order.Lattice.Nat

/-!
# No boundary of a block is skipped

Going forward over blocks looks for a header in the block at hand, then at the end of that block,
and then in the block around it below what was searched already.  This comes to the nearest of few
places: the first header further down, and the ends of the blocks around the statement at the
offset.

* `Document.HeaderAhead`, `chain`, `boundariesAhead`: those places;
* `Document.mem_enclosingHeaders_iff`: the headers around a statement, one by one;
* `IsLeastOf`: the least element of a set, if there is one;
* `Document.isLeastOf_forwardBlockIn`: the search through a list of blocks;
* `forward_block_never_skips`.
-/

namespace Offside

/-- An answer that is the least element of a set, or none if the set is empty. -/
def IsLeastOf (answer : Option Nat) (s : Set Nat) : Prop :=
  match answer with
  | some n => IsLeast s n
  | none => s = ∅

theorem IsLeastOf.eq_some_iff {answer : Option Nat} {s : Set Nat} (h : IsLeastOf answer s)
    {n : Nat} :
    answer = some n ↔ IsLeast s n := by
  cases answer with
  | none =>
    constructor
    · intro hnone
      cases hnone
    · intro hn
      have hmem := hn.1
      rw [show s = ∅ from h] at hmem
      cases hmem
  | some m =>
    rw [Option.some_inj]
    constructor
    · rintro rfl
      exact h
    · intro hn
      exact IsLeast.unique h hn

theorem IsLeastOf.eq_none_iff {answer : Option Nat} {s : Set Nat} (h : IsLeastOf answer s) :
    answer = none ↔ s = ∅ := by
  cases answer with
  | none => exact ⟨fun _ => h, fun _ => rfl⟩
  | some m =>
    constructor
    · intro hsome
      cases hsome
    · intro hempty
      have hmem := IsLeast.nonempty h
      rw [hempty] at hmem
      exact absurd hmem Set.not_nonempty_empty

namespace Document

variable {d : Document} {after header limit line m offset statement : Nat}

/-! ### The places ahead -/

/-- A header further down than the statement at an offset, or than the offset if there is none. -/
def HeaderAhead (d : Document) (offset line : Nat) : Prop :=
  d.StartsCode line ∧ d.isBlockHeader line = true ∧
    (d.statementAt? offset).getD (d.buffer.lineOfOffset offset) < line

/-- The headers that are met going from a statement to the header around it, and so on; the
statement is one of them if it is a header. -/
def chain (d : Document) (statement : Nat) : Set Nat :=
  {header | d.isBlockHeader header = true ∧
    Relation.ReflTransGen (fun s h => (d.enclosingHeaders s).head? = some h) statement header}

/-- The start of the first header further down, and the ends ahead of the blocks around the
statement at an offset. -/
def boundariesAhead (d : Document) (offset : Nat) : Set Nat :=
  {target | ∃ line,
      IsLeast {l | d.HeaderAhead offset l} line ∧ d.buffer.indentationEnd line = target} ∪
    {target | offset < target ∧ ∃ statement, d.statementAt? offset = some statement ∧
      ∃ header ∈ d.chain statement, d.buffer.lineEnd (d.blockEnd header) = target}

/-- The headers around a statement are met by going from one to the next. -/
theorem mem_enclosingHeaders_iff {h : Nat} (hline : line ≤ d.lineCount) :
    h ∈ d.enclosingHeaders line ↔
      Relation.TransGen (fun s h => (d.enclosingHeaders s).head? = some h) line h := by
  constructor
  · intro h
    generalize hlist : d.enclosingHeaders line = headers at h
    induction headers generalizing line with
    | nil => cases h
    | cons first rest ih =>
      have hfirst : (d.enclosingHeaders line).head? = some first := by rw [hlist, List.head?_cons]
      rcases List.mem_cons.1 h with rfl | h
      · exact .single hfirst
      · have hlt := (mem_enclosingHeaders (hlist ▸ List.mem_cons_self)).2
        have hrest := enclosingHeaders_of_cons (by omega) hlist
        exact .head hfirst (ih (by omega) hrest h)
  · intro h
    induction h using Relation.TransGen.head_induction_on with
    | single h => exact List.mem_of_head? h
    | @head line first h _ ih =>
      obtain ⟨rest, hlist⟩ := List.head?_eq_some_iff.1 h
      have hlt := (mem_enclosingHeaders (hlist ▸ List.mem_cons_self)).2
      have hmem := ih (by omega)
      rw [enclosingHeaders_of_cons (by omega) hlist] at hmem
      rw [hlist]
      exact List.mem_cons_of_mem first hmem

/-- The headers of the chain of a statement, innermost first. -/
def headersFrom (d : Document) (statement : Nat) : List Nat :=
  if d.isBlockHeader statement then statement :: d.enclosingHeaders statement
  else d.enclosingHeaders statement

theorem mem_headersFrom_iff : header ∈ d.headersFrom statement ↔
    (d.isBlockHeader statement = true ∧ header = statement) ∨
      header ∈ d.enclosingHeaders statement := by
  rw [headersFrom]
  split
  · next h => simp [h]
  · next h => simp [h]

/-- The statement is in the blocks of the headers of its chain. -/
theorem inBlock_of_mem_headersFrom (h : d.StartsCode statement)
    (hheader : header ∈ d.headersFrom statement) :
    d.StartsCode header ∧ d.InBlock header statement := by
  rcases mem_headersFrom_iff.1 hheader with ⟨-, rfl⟩ | hheader
  · exact ⟨h, .refl d header⟩
  · have hencloses := encloses_of_mem_enclosingHeaders h hheader
    exact ⟨hencloses.startsCode, hencloses.inBlock⟩

theorem mem_chain_iff (h : d.StartsCode statement) :
    header ∈ d.chain statement ↔ header ∈ d.headersFrom statement := by
  have hmem := mem_enclosingHeaders_iff (d := d) (h := header) h.mem.2
  rw [mem_headersFrom_iff, hmem]
  constructor
  · rintro ⟨hheader, hpath⟩
    rcases Relation.reflTransGen_iff_eq_or_transGen.1 hpath with rfl | hpath
    · exact .inl ⟨hheader, rfl⟩
    · exact .inr hpath
  · rintro (⟨hheader, rfl⟩ | hpath)
    · exact ⟨hheader, .refl⟩
    · exact ⟨(encloses_of_mem_enclosingHeaders h (hmem.2 hpath)).isHeader, hpath.to_reflTransGen⟩

/-- The blocks of the chain end in order. -/
theorem pairwise_headersFrom (h : d.StartsCode statement) :
    (d.headersFrom statement).Pairwise fun h k => d.blockEnd h ≤ d.blockEnd k := by
  have haround : ∀ line, d.StartsCode line →
      (d.enclosingHeaders line).Pairwise fun h k => d.blockEnd h ≤ d.blockEnd k := by
    intro line hline
    generalize hlist : d.enclosingHeaders line = headers
    induction headers generalizing line with
    | nil => exact .nil
    | cons first rest ih =>
      have hfirst :=
        (encloses_of_mem_enclosingHeaders hline (hlist ▸ List.mem_cons_self)).startsCode
      have hrest := enclosingHeaders_of_cons (Nat.le_succ_of_le hline.mem.2) hlist
      refine List.pairwise_cons.2 ⟨fun k hk => ?_, ih first hfirst hrest⟩
      have hencloses := encloses_of_mem_enclosingHeaders hfirst (hrest ▸ hk)
      exact blockEnd_le_of_inBlock hencloses.startsCode hfirst hencloses.inBlock
  rw [headersFrom]
  split
  · refine List.pairwise_cons.2 ⟨fun k hk => ?_, haround statement h⟩
    have hencloses := encloses_of_mem_enclosingHeaders h hk
    exact blockEnd_le_of_inBlock hencloses.startsCode h hencloses.inBlock
  · exact haround statement h

/-! ### The search -/

/-- The headers below a line. -/
def headersBelow (d : Document) (after : Nat) : Set Nat :=
  {line | d.StartsCode line ∧ d.isBlockHeader line = true ∧ after < line}

/-- Whether going down from a line meets exactly the statements that start below it. -/
def MeetsBelow (d : Document) (after : Nat) : Prop :=
  ∀ line, line ∈ d.statementsAfter after ↔ d.StartsCode line ∧ after < line

theorem meetsBelow_statementEnd (h : d.StartsCode m) : d.MeetsBelow (d.statementEnd m) := by
  obtain ⟨hone, hle⟩ := h.mem
  have hend := (statementEnd_mem hone hle).1
  intro line
  rw [← statementsBelow, mem_statementsBelow_iff hone hle]
  constructor
  · rintro ⟨hline, hlt⟩
    exact ⟨hline, hline.statementEnd_lt hone hlt⟩
  · rintro ⟨hline, hlt⟩
    exact ⟨hline, by omega⟩

theorem meetsBelow_blockEnd (h : d.StartsCode header) : d.MeetsBelow (d.blockEnd header) := by
  obtain ⟨last, ⟨⟨hlast, -⟩, -⟩, hend⟩ := exists_blockEnd h
  rw [hend]
  exact meetsBelow_statementEnd hlast

/-- The first header between two lines is the first one below the upper one, if it is not below the
lower one. -/
theorem headerBetween?_eq_some_iff (hafter : d.MeetsBelow after) :
    d.headerBetween? after limit = some line ↔
      IsLeast (d.headersBelow after) line ∧ line ≤ limit := by
  have hsorted := d.pairwise_statementsAfter after
  have hmem : ∀ l, l ∈ d.headersBelow after ↔
      l ∈ d.statementsAfter after ∧ d.isBlockHeader l = true := by
    intro l
    rw [hafter l]
    exact ⟨fun h => ⟨⟨h.1, h.2.2⟩, h.2.1⟩, fun h => ⟨h.1.1, h.2, h.1.2⟩⟩
  rw [headerBetween?, find?_takeWhile_eq_some_iff]
  constructor
  · rintro ⟨pre, suf, hlist, ⟨hheader, hpre⟩, hle, -⟩
    rw [hlist] at hsorted
    refine ⟨⟨(hmem line).2 ⟨hlist ▸ by simp, hheader⟩, fun l hl => ?_⟩, by simpa using hle⟩
    obtain ⟨hl, hheader⟩ := (hmem l).1 hl
    rw [hlist] at hl
    rcases List.mem_append.1 hl with hl | hl
    · rw [hpre l hl] at hheader
      cases hheader
    · rcases List.mem_cons.1 hl with rfl | hl
      · exact Nat.le_refl l
      · exact Nat.le_of_lt ((List.pairwise_cons.1 (List.pairwise_append.1 hsorted).2.1).1 l hl)
  · rintro ⟨⟨hline, hleast⟩, hle⟩
    obtain ⟨hmemline, hheader⟩ := (hmem line).1 hline
    obtain ⟨pre, suf, hlist⟩ := List.append_of_mem hmemline
    rw [hlist] at hsorted
    have hpre : ∀ k ∈ pre, k < line := fun k hk =>
      (List.pairwise_append.1 hsorted).2.2 k hk line List.mem_cons_self
    refine ⟨pre, suf, hlist, ⟨hheader, fun k hk => ?_⟩, by simpa using hle, fun k hk => ?_⟩
    · by_contra hk'
      have hge : line ≤ k :=
        hleast ((hmem k).2 ⟨hlist ▸ List.mem_append_left _ hk, by simpa using hk'⟩)
      have := hpre k hk
      omega
    · have := hpre k hk
      exact decide_eq_true (by omega)

/-- Without a header between two lines, all headers below the upper one are below the lower one. -/
theorem lt_of_headerBetween?_eq_none (hafter : d.MeetsBelow after)
    (h : d.headerBetween? after limit = none) (hline : line ∈ d.headersBelow after) :
    limit < line := by
  have hfirst := isLeast_csInf (⟨line, hline⟩ : (d.headersBelow after).Nonempty)
  by_contra hge
  have hle := hfirst.2 hline
  rw [(headerBetween?_eq_some_iff hafter).2 ⟨hfirst, by omega⟩] at h
  cases h

/-- The start of the first header below a line, and the ends ahead of an offset of some blocks. -/
def places (d : Document) (offset after : Nat) (headers : List Nat) : Set Nat :=
  {target | ∃ line, IsLeast (d.headersBelow after) line ∧ d.buffer.indentationEnd line = target} ∪
    {target | offset < target ∧ ∃ header ∈ headers, d.buffer.lineEnd (d.blockEnd header) = target}

/-- The search through blocks, each of which lies in the next one, finds the nearest place: a header
in the first block comes before the ends of all, and the end of the first block before the other
ends and before all headers below it. -/
theorem isLeastOf_forwardBlockIn (offset : Nat) {headers : List Nat} (hafter : d.MeetsBelow after)
    (hcode : ∀ h ∈ headers, d.StartsCode h ∧ after ≤ d.blockEnd h)
    (hnested : headers.Pairwise fun h k => d.blockEnd h ≤ d.blockEnd k) :
    IsLeastOf (d.forwardBlockIn offset after headers) (d.places offset after headers) := by
  induction headers generalizing after with
  | nil =>
    rw [forwardBlockIn]
    cases hbetween : d.headerBetween? after d.lineCount with
    | some line =>
      obtain ⟨hfirst, -⟩ := (headerBetween?_eq_some_iff hafter).1 hbetween
      refine ⟨.inl ⟨line, hfirst, rfl⟩, ?_⟩
      rintro target (⟨other, hother, rfl⟩ | ⟨-, h, hh, -⟩)
      · rw [hfirst.unique hother]
      · cases hh
    | none =>
      refine Set.eq_empty_iff_forall_notMem.2 ?_
      rintro target (⟨line, hline, -⟩ | ⟨-, h, hh, -⟩)
      · have hlt := lt_of_headerBetween?_eq_none hafter hbetween hline.1
        have hle := hline.1.1.mem.2
        omega
      · cases hh
  | cons header rest ih =>
    obtain ⟨hnest, hnested⟩ := List.pairwise_cons.1 hnested
    obtain ⟨⟨hheader, hle⟩, hrest⟩ := List.forall_mem_cons.1 hcode
    have hends : ∀ k ∈ header :: rest,
        d.blockEnd header ≤ d.blockEnd k ∧ d.blockEnd k ≤ d.lineCount := by
      intro k hk
      have hk' := (hcode k hk).1.mem
      refine ⟨?_, (blockEnd_mem hk'.1 hk'.2).2⟩
      rcases List.mem_cons.1 hk with rfl | hk
      · exact Nat.le_refl _
      · exact hnest k hk
    have hone : 1 ≤ d.blockEnd header :=
      Nat.le_trans hheader.mem.1 (blockEnd_mem hheader.mem.1 hheader.mem.2).1
    rw [forwardBlockIn]
    cases hbetween : d.headerBetween? after (d.blockEnd header) with
    | some line =>
      obtain ⟨hfirst, hlimit⟩ := (headerBetween?_eq_some_iff hafter).1 hbetween
      refine ⟨.inl ⟨line, hfirst, rfl⟩, ?_⟩
      rintro target (⟨other, hother, rfl⟩ | ⟨-, k, hk, rfl⟩)
      · rw [hfirst.unique hother]
      · exact Buffer.indentationEnd_le_lineEnd hfirst.1.1.mem.1
          (Nat.le_trans hlimit (hends k hk).1) (hends k hk).2
    | none =>
      have hbelow : ∀ line ∈ d.headersBelow after, d.blockEnd header < line := fun line hline =>
        lt_of_headerBetween?_eq_none hafter hbetween hline
      dsimp only
      split
      · next hahead =>
        refine ⟨.inr ⟨hahead, header, List.mem_cons_self, rfl⟩, ?_⟩
        rintro target (⟨line, hline, rfl⟩ | ⟨-, k, hk, rfl⟩)
        · exact Nat.le_of_lt
            (Buffer.lineEnd_lt_indentationEnd hone (hbelow line hline.1) hline.1.1.mem.2)
        · exact Buffer.lineEnd_le_lineEnd hone (hends k hk).1 (hends k hk).2
      · next hbehind =>
        -- nothing is left behind in the block that was searched
        have hsame : d.headersBelow after = d.headersBelow (d.blockEnd header) := by
          ext line
          constructor
          · intro hline
            exact ⟨hline.1, hline.2.1, hbelow line hline⟩
          · rintro ⟨hline, hline', hlt⟩
            exact ⟨hline, hline', by omega⟩
        have hplaces : d.places offset after (header :: rest) =
            d.places offset (d.blockEnd header) rest := by
          rw [places, places, hsame]
          congr 1
          ext target
          constructor
          · rintro ⟨hahead, k, hk, rfl⟩
            rcases List.mem_cons.1 hk with rfl | hk
            · exact absurd hahead hbehind
            · exact ⟨hahead, k, hk, rfl⟩
          · rintro ⟨hahead, k, hk, rfl⟩
            exact ⟨hahead, k, List.mem_cons_of_mem header hk, rfl⟩
        rw [hplaces]
        exact ih (meetsBelow_blockEnd hheader) (fun k hk => ⟨(hrest k hk).1, hnest k hk⟩) hnested

/-! ### The whole motion -/

/-- Without a statement at an offset there is no code down to its line. -/
theorem lineOfOffset_lt_of_startsCode (h : d.statementAt? offset = none)
    (hline : d.StartsCode line) :
    d.buffer.lineOfOffset offset < line := by
  by_contra hge
  have hblank := isBlankOrComment_of_statementAt? h
  rcases Nat.eq_or_lt_of_le (Nat.le_of_not_lt hge) with rfl | hlt
  · rw [hline.2] at hblank
    cases hblank
  · obtain ⟨p, hp, -⟩ := exists_previousCodeLine? hline.mem.1 hlt hline.2
    rw [statementAt?, codeLineAtOrBefore?, if_pos hblank, hp] at h
    cases h

/-- Going down from a line with no code on or above it meets all statements. -/
theorem meetsBelow_of_none (h : d.statementAt? offset = none) :
    d.MeetsBelow (d.buffer.lineOfOffset offset - 1) := by
  have hle := (d.buffer.lineOfOffset_mem offset).2
  have hnext : ∀ n, n < d.buffer.lineOfOffset offset → d.nextCodeLine? n = d.nextCodeLine? 0 := by
    intro n hn
    induction n with
    | zero => rfl
    | succ n ih =>
      have hcount : n + 1 ≤ d.lineCount := Nat.le_trans (Nat.le_of_lt hn) hle
      have hblank : d.isBlankOrComment (n + 1) = true := by
        by_contra hcode
        have hstart := startsCode_statementStart (by omega) hcount (by simpa using hcode)
        have hlt := lineOfOffset_lt_of_startsCode h hstart
        have hstart' := statementStart_le (d := d) (m := n + 1) (by omega) hcount
        omega
      rw [← ih (by omega), nextCodeLine?_succ hcount, if_pos hblank]
  intro line
  have hone := (d.buffer.lineOfOffset_mem offset).1
  rw [statementsAfter_eq, hnext _ (by omega), ← statementsAfter_eq, mem_statementsAfter_zero]
  constructor
  · intro hline
    have hlt := lineOfOffset_lt_of_startsCode h hline
    exact ⟨hline, by omega⟩
  · exact fun hline => hline.1

theorem isLeastOf_forwardBlock (d : Document) (offset : Nat) :
    IsLeastOf (d.forwardBlock offset) (d.boundariesAhead offset) := by
  rw [forwardBlock]
  cases hstatement : d.statementAt? offset with
  | none =>
    have hplaces : d.boundariesAhead offset =
        d.places offset (d.buffer.lineOfOffset offset - 1) [] := by
      have hahead : {l | d.HeaderAhead offset l} =
          d.headersBelow (d.buffer.lineOfOffset offset - 1) := by
        ext line
        rw [Set.mem_ofPred_eq, HeaderAhead, hstatement, Option.getD_none]
        constructor
        · rintro ⟨hline, hheader, hlt⟩
          exact ⟨hline, hheader, by omega⟩
        · rintro ⟨hline, hheader, -⟩
          exact ⟨hline, hheader, lineOfOffset_lt_of_startsCode hstatement hline⟩
      rw [boundariesAhead, places, hahead]
      simp [hstatement]
    rw [hplaces]
    exact isLeastOf_forwardBlockIn offset (meetsBelow_of_none hstatement) (by simp) .nil
  | some statement =>
    have hcode := startsCode_of_statementAt? hstatement
    have hend := (statementEnd_mem hcode.mem.1 hcode.mem.2).1
    have hplaces : d.boundariesAhead offset =
        d.places offset (d.statementEnd statement) (d.headersFrom statement) := by
      have hahead : {l | d.HeaderAhead offset l} = d.headersBelow (d.statementEnd statement) := by
        ext line
        rw [Set.mem_ofPred_eq, HeaderAhead, hstatement, Option.getD_some]
        constructor
        · rintro ⟨hline, hheader, hlt⟩
          exact ⟨hline, hheader, hline.statementEnd_lt hcode.mem.1 hlt⟩
        · rintro ⟨hline, hheader, hlt⟩
          exact ⟨hline, hheader, Nat.lt_of_le_of_lt hend hlt⟩
      rw [boundariesAhead, places, hahead]
      simp only [hstatement, Option.some_inj, exists_eq_left', mem_chain_iff hcode]
    rw [hplaces]
    refine isLeastOf_forwardBlockIn offset (meetsBelow_statementEnd hcode) (fun h hh => ?_)
      (pairwise_headersFrom hcode)
    obtain ⟨hstart, hblock⟩ := inBlock_of_mem_headersFrom hcode hh
    exact ⟨hstart, statementEnd_le_blockEnd hstart hcode hblock⟩

/-- What lies before the start of a header leaves it ahead. -/
theorem headerAhead_of_lt (hline : d.StartsCode line) (hheader : d.isBlockHeader line = true)
    (h : d.buffer.lineOfOffset offset < line) : d.HeaderAhead offset line := by
  refine ⟨hline, hheader, ?_⟩
  cases hstatement : d.statementAt? offset with
  | none => exact h
  | some statement => exact Nat.lt_of_le_of_lt (lt_of_statementAt? hstatement).1 h

/-- A boundary before the start of a header lies on a line above it. -/
theorem lineOfOffset_lt_of_mem_boundariesAhead {target : Nat}
    (h : target ∈ d.boundariesAhead offset) (hline : d.StartsCode line)
    (hlt : target < d.buffer.indentationEnd line) : d.buffer.lineOfOffset target < line := by
  obtain ⟨hone, hcount⟩ := hline.mem
  -- it lies no further than the end of a line above
  obtain ⟨m, hm, hmline, hend⟩ : ∃ m, 1 ≤ m ∧ m < line ∧ target ≤ d.buffer.lineEnd m := by
    rcases h with ⟨first, hfirst, rfl⟩ | ⟨-, statement, hstatement, header, hheader, rfl⟩
    · refine ⟨first, hfirst.1.1.mem.1, ?_, d.buffer.indentationEnd_le first⟩
      by_contra hge
      rcases Nat.eq_or_lt_of_le (Nat.le_of_not_lt hge) with rfl | hgt
      · omega
      · have := Buffer.indentationEnd_lt_indentationEnd hone hgt hfirst.1.1.mem.2
        omega
    · have hcode := startsCode_of_statementAt? hstatement
      have hstart := (inBlock_of_mem_headersFrom hcode ((mem_chain_iff hcode).1 hheader)).1.mem
      obtain ⟨hlo, hhi⟩ := blockEnd_mem hstart.1 hstart.2
      refine ⟨d.blockEnd header, Nat.le_trans hstart.1 hlo, ?_, Nat.le_refl _⟩
      by_contra hge
      have := Buffer.indentationEnd_le_lineEnd hone (Nat.le_of_not_lt hge) hhi
      omega
  by_contra hge
  have hstart := (Buffer.lineStart_le_iff hone hcount).2 (Nat.le_of_not_lt hge)
  have hbefore := (Buffer.lineEnd_lt_lineStart hm hmline hcount).1
  omega

/-- Going forward again and again comes to every header ahead. -/
theorem transGen_forwardBlock (h : d.HeaderAhead offset line) :
    Relation.TransGen (fun o t => d.forwardBlock o = some t) offset
      (d.buffer.indentationEnd line) := by
  induction hn : d.buffer.indentationEnd line - offset using Nat.strong_induction_on
    generalizing offset with
  | _ n ih =>
    have hfirst := isLeast_csInf (⟨line, h⟩ : {l | d.HeaderAhead offset l}.Nonempty)
    have hplace : d.buffer.indentationEnd (sInf {l | d.HeaderAhead offset l}) ∈
        d.boundariesAhead offset := .inl ⟨_, hfirst, rfl⟩
    have hleast := d.isLeastOf_forwardBlock offset
    cases hforward : d.forwardBlock offset with
    | none =>
      rw [hleast.eq_none_iff.1 hforward] at hplace
      cases hplace
    | some target =>
      have htarget := hleast.eq_some_iff.1 hforward
      have hahead := lt_of_forwardBlock hforward
      -- the target is no further than the first header ahead, and so than this one
      have hle : target ≤ d.buffer.indentationEnd line := by
        have hto := htarget.2 hplace
        rcases Nat.eq_or_lt_of_le (hfirst.2 h) with heq | hlt
        · rw [heq] at hto
          exact hto
        · have := Buffer.indentationEnd_lt_indentationEnd hfirst.1.1.mem.1 hlt h.1.mem.2
          omega
      rcases Nat.eq_or_lt_of_le hle with rfl | hlt
      · exact .single hforward
      · have hline := lineOfOffset_lt_of_mem_boundariesAhead htarget.1 h.1 hlt
        exact .head hforward (ih _ (by omega) (headerAhead_of_lt h.1 h.2.1 hline) rfl)

end Document

/-- **Going forward skips no boundary.**  Let `S` be the statement at an offset, if there is one.
Going forward over blocks leads to the nearest of these places: the start of the first header below
`S` (of the first header below the offset if there is no `S`), and the ends behind the offset of the
blocks of `S` itself, if it is a header, of the header around it, and so on.  It leads nowhere
exactly if there is no such place.  So going forward again and again visits the start of every
header below `S`. -/
theorem forward_block_never_skips (d : Document) (offset : Nat) :
    (∀ target, d.forwardBlock offset = some target ↔ IsLeast (d.boundariesAhead offset) target) ∧
    (d.forwardBlock offset = none ↔ d.boundariesAhead offset = ∅) ∧
    ∀ line, d.HeaderAhead offset line →
      Relation.TransGen (fun o t => d.forwardBlock o = some t) offset
        (d.buffer.indentationEnd line) := by
  have hleast := d.isLeastOf_forwardBlock offset
  refine ⟨fun target => hleast.eq_some_iff, hleast.eq_none_iff, fun line hline => ?_⟩
  exact Document.transGen_forwardBlock hline

/-- From the body of a method to the end of two blocks at once, and then to the next class. -/
theorem forward_block_never_skips_next_class :
    let d := Document.ofText "class A:\n  def f():\n    x = 1\n\nclass B(A):\n  pass\n".toList
    (d.statementAt? 25 = some 3 ∧ d.HeaderAhead 25 5) ∧
      (d.forwardBlock 25 = some 29 ∧ d.buffer.indentationEnd 5 = 31) ∧
      IsLeast (d.boundariesAhead 25) 29 ∧
      Relation.TransGen (fun o t => d.forwardBlock o = some t) 25 (d.buffer.indentationEnd 5) := by
  intro d
  have hahead : d.HeaderAhead 25 5 :=
    ⟨by decide +kernel, by decide +kernel, by decide +kernel⟩
  have hforward : d.forwardBlock 25 = some 29 := by decide +kernel
  obtain ⟨hleast, -, hvisits⟩ := forward_block_never_skips d 25
  exact ⟨⟨by decide +kernel, hahead⟩, ⟨hforward, by decide +kernel⟩, (hleast 29).1 hforward,
    hvisits 5 hahead⟩

end Offside
