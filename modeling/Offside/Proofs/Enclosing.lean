import Offside.Proofs.Progress
import Mathlib.Data.List.Sort

/-!
# The innermost block around a statement

Going up from a statement, keep every statement that is shallower than it and than all that were
kept before.  These are exactly the statements in whose block it lies, as the walk downwards that
finds the end of a block measures it.  The headers around the statement are those that are kept
before the first one that is no header.

* `Document.codeAbove`, `codeAbove_eq`: the statements with code above a line;
* `Document.keep`, `keptAbove`, `shallower`: the statements that are kept;
* `Document.mem_keptAbove_iff`: they are those around a line;
* `Document.enclosingHeaders_eq`: which of them are found;
* `enclosing_header_is_innermost`.
-/

namespace Offside

namespace Document

variable {d : Document} {column header line threshold : Nat} {above : List Nat}

instance (d : Document) (line : Nat) : Decidable (d.StartsCode line) :=
  inferInstanceAs (Decidable (_ ∧ _))

/-! ### The statements that are kept -/

/-- The first lines of the statements with code above a line, nearest first. -/
def codeAbove (d : Document) (line : Nat) : List Nat :=
  ((List.range line).filter fun l => decide (d.StartsCode l)).reverse

/-- Keeps a statement if it is shallower than column `column` and than all that are kept so far. -/
def keep (d : Document) (column : Nat) (kept : List Nat) (candidate : Nat) : List Nat :=
  if d.buffer.indentation candidate < column ∧
      ∀ k ∈ kept, d.buffer.indentation candidate < d.buffer.indentation k then kept ++ [candidate]
  else kept

/-- The statements with code above a line, nearest first, that are shallower than the line and than
all of them that are nearer to it. -/
def keptAbove (d : Document) (line : Nat) : List Nat :=
  (d.codeAbove line).foldl (d.keep (d.buffer.indentation line)) []

/-- Going up visits the statements with code one after the other. -/
theorem codeAbove_eq (hline : line ≤ d.lineCount + 1) :
    d.codeAbove line = d.statementsAbove line := by
  have hsorted : (d.codeAbove line).Pairwise (· > ·) :=
    List.pairwise_reverse.2 (List.pairwise_lt_range.filter _)
  refine hsorted.eq_of_mem_iff (d.pairwise_statementsAbove line) fun m => ?_
  rw [codeAbove, List.mem_reverse, List.mem_filter, List.mem_range, decide_eq_true_eq,
    mem_statementsAbove_iff hline]
  exact and_comm

/-- The statements, listed upwards, that are shallower than a threshold which the last of them that
is kept sets. -/
def shallower (d : Document) : Nat → List Nat → List Nat
  | _, [] => []
  | threshold, line :: above =>
    if d.buffer.indentation line < threshold then
      line :: shallower d (d.buffer.indentation line) above
    else shallower d threshold above

/-- What is shallower than the threshold is what is shallower than everything kept so far. -/
theorem foldl_keep (threshold : Nat) (kept : List Nat)
    (h : ∀ n, n < threshold ↔ n < column ∧ ∀ k ∈ kept, n < d.buffer.indentation k) :
    above.foldl (d.keep column) kept = kept ++ d.shallower threshold above := by
  induction above generalizing kept threshold with
  | nil => simp [shallower]
  | cons l above ih =>
    rw [List.foldl_cons, keep, shallower]
    by_cases hlt : d.buffer.indentation l < threshold
    · rw [if_pos ((h _).1 hlt), if_pos hlt, ih (d.buffer.indentation l), List.append_assoc,
        List.singleton_append]
      intro n
      constructor
      · intro hn
        obtain ⟨hcolumn, hkept⟩ := (h n).1 (Nat.lt_trans hn hlt)
        refine ⟨hcolumn, fun k hk => ?_⟩
        rcases List.mem_append.1 hk with hk | hk
        · exact hkept k hk
        · exact List.mem_singleton.1 hk ▸ hn
      · rintro ⟨-, hkept⟩
        exact hkept l (List.mem_append_right kept (List.mem_singleton_self l))
    · rw [if_neg fun hall => hlt ((h _).2 hall), if_neg hlt, ih threshold kept h]

theorem keptAbove_eq (hline : line ≤ d.lineCount + 1) :
    d.keptAbove line = d.shallower (d.buffer.indentation line) (d.statementsAbove line) := by
  rw [keptAbove, codeAbove_eq hline, foldl_keep (d.buffer.indentation line) [] (by simp),
    List.nil_append]

/-- A statement is kept if it is shallower than the threshold and than all statements that are
nearer. -/
theorem mem_shallower_iff {m : Nat} :
    m ∈ d.shallower threshold above ↔ ∃ pre suf, above = pre ++ m :: suf ∧
      d.buffer.indentation m < threshold ∧
      ∀ l ∈ pre, d.buffer.indentation m < d.buffer.indentation l := by
  induction above generalizing threshold with
  | nil => simp [shallower]
  | cons l above ih =>
    rw [shallower]
    by_cases hlt : d.buffer.indentation l < threshold
    · rw [if_pos hlt, List.mem_cons, ih]
      constructor
      · rintro (rfl | ⟨pre, suf, rfl, hm, hpre⟩)
        · exact ⟨[], above, rfl, hlt, by simp⟩
        · exact ⟨l :: pre, suf, rfl, Nat.lt_trans hm hlt, List.forall_mem_cons.2 ⟨hm, hpre⟩⟩
      · rintro ⟨pre, suf, hlist, hm, hpre⟩
        rcases List.cons_eq_append_iff.1 hlist with ⟨rfl, hrest⟩ | ⟨pre, rfl, rfl⟩
        · exact .inl (List.cons_eq_cons.1 hrest).1
        · obtain ⟨hl, hpre⟩ := List.forall_mem_cons.1 hpre
          exact .inr ⟨pre, suf, rfl, hl, hpre⟩
    · rw [if_neg hlt, ih]
      constructor
      · rintro ⟨pre, suf, rfl, hm, hpre⟩
        refine ⟨l :: pre, suf, rfl, hm, List.forall_mem_cons.2 ⟨?_, hpre⟩⟩
        exact Nat.lt_of_lt_of_le hm (Nat.le_of_not_lt hlt)
      · rintro ⟨pre, suf, hlist, hm, hpre⟩
        rcases List.cons_eq_append_iff.1 hlist with ⟨rfl, hrest⟩ | ⟨pre, rfl, rfl⟩
        · obtain ⟨rfl, -⟩ := List.cons_eq_cons.1 hrest
          exact absurd hm hlt
        · exact ⟨pre, suf, rfl, hm, (List.forall_mem_cons.1 hpre).2⟩

/-- The statements that are kept going up are those in whose block the line is. -/
theorem mem_keptAbove_iff (hline : d.StartsCode line) {m : Nat} :
    m ∈ d.keptAbove line ↔ d.StartsCode m ∧ m < line ∧ d.InBlock m line := by
  have hle : line ≤ d.lineCount + 1 := Nat.le_succ_of_le hline.mem.2
  have hsorted := d.pairwise_statementsAbove line
  rw [keptAbove_eq hle, mem_shallower_iff]
  constructor
  · rintro ⟨pre, suf, habove, hm, hpre⟩
    have hmem : m ∈ d.statementsAbove line := by
      rw [habove]
      exact List.mem_append_right pre List.mem_cons_self
    obtain ⟨hcode, hlt⟩ := (mem_statementsAbove_iff hle).1 hmem
    refine ⟨hcode, hlt, Nat.le_of_lt hlt, fun s hs hms hsl => ?_⟩
    rcases Nat.eq_or_lt_of_le hsl with rfl | hsl
    · exact hm
    · -- what lies between was met before
      have hs' : s ∈ pre ++ m :: suf := by
        rw [← habove]
        exact (mem_statementsAbove_iff hle).2 ⟨hs, hsl⟩
      rw [habove] at hsorted
      rcases List.mem_append.1 hs' with hs' | hs'
      · exact hpre s hs'
      · have hbelow := (List.pairwise_cons.1 (List.pairwise_append.1 hsorted).2.1).1
        rcases List.mem_cons.1 hs' with rfl | hs'
        · omega
        · have := hbelow s hs'
          omega
  · rintro ⟨hcode, hlt, hblock⟩
    obtain ⟨pre, suf, habove⟩ :=
      List.append_of_mem ((mem_statementsAbove_iff hle).2 ⟨hcode, hlt⟩)
    refine ⟨pre, suf, habove, hblock.2 line hline hlt (Nat.le_refl line), fun l hl => ?_⟩
    have hmem : l ∈ d.statementsAbove line := by
      rw [habove]
      exact List.mem_append_left _ hl
    obtain ⟨hl', hll⟩ := (mem_statementsAbove_iff hle).1 hmem
    rw [habove] at hsorted
    exact hblock.2 l hl' ((List.pairwise_append.1 hsorted).2.2 l hl m List.mem_cons_self)
      (Nat.le_of_lt hll)

/-- The statements that are kept are listed from bottom to top. -/
theorem pairwise_keptAbove (hline : line ≤ d.lineCount + 1) :
    (d.keptAbove line).Pairwise (· > ·) := by
  have hsub : ∀ above threshold, (d.shallower threshold above).Sublist above := by
    intro above
    induction above with
    | nil => exact fun _ => List.Sublist.refl []
    | cons l above ih =>
      intro threshold
      rw [shallower]
      split
      · exact (ih _).cons_cons l
      · exact (ih threshold).cons l
  rw [keptAbove_eq hline]
  exact (d.pairwise_statementsAbove line).sublist (hsub _ _)

/-! ### The headers among them -/

/-- The search for headers keeps statements up to the first one that is no header. -/
theorem headersAround_eq (d : Document) (threshold : Nat) (above : List Nat) :
    d.headersAround threshold above = (d.shallower threshold above).takeWhile d.isBlockHeader := by
  induction above generalizing threshold with
  | nil => rfl
  | cons l above ih =>
    rw [headersAround, shallower]
    by_cases hlt : d.buffer.indentation l < threshold
    · rw [if_pos hlt, if_pos hlt, List.takeWhile_cons, ih]
    · rw [if_neg hlt, if_neg hlt, ih]

theorem enclosingHeaders_eq (hline : line ≤ d.lineCount + 1) :
    d.enclosingHeaders line = (d.keptAbove line).takeWhile d.isBlockHeader := by
  rw [enclosingHeaders, headersAround_eq, keptAbove_eq hline]

/-! ### What the bounds cover -/

/-- A span from a line on starts before a statement exactly if the line does. -/
theorem start_blockSpan_le_iff {m statement : Nat} (hone : 1 ≤ m) (hm : m ≤ d.lineCount)
    (hstatement : d.StartsCode statement) :
    (d.blockSpan m header).start ≤ d.buffer.indentationEnd statement ↔ m ≤ statement := by
  show d.buffer.indentationEnd m ≤ _ ↔ _
  constructor
  · intro hle
    by_contra hlt
    have := Buffer.indentationEnd_lt_indentationEnd (b := d.buffer) hstatement.mem.1
      (show statement < m by omega) hm
    omega
  · intro hle
    rcases Nat.eq_or_lt_of_le hle with rfl | hlt
    · exact Nat.le_refl _
    · exact Nat.le_of_lt (Buffer.indentationEnd_lt_indentationEnd hone hlt hstatement.mem.2)

/-- A span to the end of a block ends behind the statements of the block and those above it. -/
theorem lineEnd_le_stop_blockSpan {statement : Nat} (first : Nat) (hheader : d.StartsCode header)
    (hstatement : d.StartsCode statement)
    (h : d.InBlock header statement ∨ statement < header) :
    d.buffer.lineEnd (d.statementEnd statement) ≤ (d.blockSpan first header).stop := by
  have hend := (statementEnd_mem hstatement.mem.1 hstatement.mem.2).1
  obtain ⟨hlo, hhi⟩ := blockEnd_mem hheader.mem.1 hheader.mem.2
  refine Buffer.lineEnd_le_lineEnd (Nat.le_trans hstatement.mem.1 hend) ?_ hhi
  rcases h with hblock | hlt
  · exact statementEnd_le_blockEnd hheader hstatement hblock
  · have := hheader.statementEnd_lt hstatement.mem.1 hlt
    omega

/-- The block at an offset covers the whole statement at the offset. -/
theorem blockBounds?_covers {offset statement : Nat} {span : Span}
    (hstatement : d.statementAt? offset = some statement)
    (hspan : d.blockBounds? offset = some span) :
    span.start ≤ d.buffer.indentationEnd statement ∧
      d.buffer.lineEnd (d.statementEnd statement) ≤ span.stop := by
  have hcode := startsCode_of_statementAt? hstatement
  rw [blockBounds?, hstatement, Option.bind_eq_bind, Option.bind_some,
    Option.bind_eq_some_iff] at hspan
  obtain ⟨header, hheader, hspan⟩ := hspan
  cases hspan
  obtain ⟨hstart, hblock⟩ := inBlock_of_blockOf? hcode hheader
  constructor
  · exact (start_blockSpan_le_iff hstart.mem.1 hstart.mem.2 hcode).2 hblock.1
  · exact lineEnd_le_stop_blockSpan header hstart hcode (.inl hblock)

end Document

/-- Searching among the first elements with one property for an element with another one. -/
theorem find?_takeWhile_eq_some_iff {p q : Nat → Bool} {l : List Nat} {m : Nat} :
    (l.takeWhile p).find? q = some m ↔ ∃ pre suf, l = pre ++ m :: suf ∧
      (q m = true ∧ ∀ k ∈ pre, q k = false) ∧ p m = true ∧ ∀ k ∈ pre, p k = true := by
  rw [List.find?_eq_some_iff_append]
  constructor
  · rintro ⟨hqm, pre, suf, hlist, hqpre⟩
    have hp : ∀ k ∈ pre ++ m :: suf, p k = true := fun k hk =>
      List.mem_takeWhile_imp (hlist ▸ hk)
    refine ⟨pre, suf ++ l.dropWhile p, ?_, ⟨hqm, fun k hk => by simpa using hqpre k hk⟩,
      hp m (by simp), fun k hk => hp k (List.mem_append_left _ hk)⟩
    rw [← List.cons_append, ← List.append_assoc, ← hlist, List.takeWhile_append_dropWhile]
  · rintro ⟨pre, suf, rfl, ⟨hqm, hqpre⟩, hpm, hppre⟩
    refine ⟨hqm, pre, suf.takeWhile p, ?_, fun k hk => by simpa using hqpre k hk⟩
    rw [List.takeWhile_append_of_pos hppre, List.takeWhile_cons_of_pos hpm]

/-- **The innermost block is found, and both walks agree on it.**  Going up from a statement over
the statements with code, keep each that is shallower than it and than all that were kept before.
The search for a header ends with the first kept statement that is accepted, provided it and all
that were kept before it are headers, and otherwise with nothing.  The statement lies in the block
of the header that is found, everything between the two is deeper than the header, and no header
between them that is accepted has the statement in its block.  So the block at an offset covers the
whole statement at the offset. -/
theorem enclosing_header_is_innermost (d : Document) :
    (∀ line, d.StartsCode line → ∀ accept : Nat → Bool,
      Ends (d.headerTurn accept) (d.buffer.indentation line, line)
        ((d.enclosingHeaders line).find? accept) ∧
      ∀ header,
        ((d.enclosingHeaders line).find? accept = some header ↔
          ∃ pre suf, d.keptAbove line = pre ++ header :: suf ∧
            (accept header = true ∧ ∀ k ∈ pre, accept k = false) ∧
            d.isBlockHeader header = true ∧ ∀ k ∈ pre, d.isBlockHeader k = true) ∧
        ((d.enclosingHeaders line).find? accept = some header →
          (header < line ∧ line ≤ d.blockEnd header) ∧
          (∀ s, d.StartsCode s → header < s → s < line →
            d.buffer.indentation header < d.buffer.indentation s) ∧
          ∀ other, d.StartsCode other → d.isBlockHeader other = true → accept other = true →
            header < other → other < line → d.blockEnd other < line)) ∧
    ∀ offset statement span, d.statementAt? offset = some statement →
      d.blockBounds? offset = some span →
      span.start ≤ d.buffer.indentationEnd statement ∧
        d.buffer.lineEnd (d.statementEnd statement) ≤ span.stop := by
  refine ⟨fun line hline accept => ⟨d.loopsEnd.enclosingHeader accept line hline.mem.1 hline.mem.2,
    fun header => ?_⟩, fun offset statement span hstatement hspan => ?_⟩
  · have hle : line ≤ d.lineCount + 1 := Nat.le_succ_of_le hline.mem.2
    have hiff : (d.enclosingHeaders line).find? accept = some header ↔
        ∃ pre suf, d.keptAbove line = pre ++ header :: suf ∧
          (accept header = true ∧ ∀ k ∈ pre, accept k = false) ∧
          d.isBlockHeader header = true ∧ ∀ k ∈ pre, d.isBlockHeader k = true := by
      rw [Document.enclosingHeaders_eq hle, find?_takeWhile_eq_some_iff]
    refine ⟨hiff, fun hfound => ?_⟩
    have hencloses :=
      Document.encloses_of_mem_enclosingHeaders hline (List.mem_of_find?_eq_some hfound)
    have hlt := hencloses.lt
    refine ⟨⟨hlt, ?_⟩, ?_, ?_⟩
    · exact (Document.le_blockEnd_iff hencloses.startsCode hline (Nat.le_of_lt hlt)).2
        hencloses.inBlock
    · exact fun s hs hheader hsl => hencloses.inBlock.2 s hs hheader (Nat.le_of_lt hsl)
    · intro other hother hheader haccept hbelow habove
      by_contra hend
      -- a header whose block reaches the line is kept, and it was met earlier
      have hblock := (Document.le_blockEnd_iff hother hline (Nat.le_of_lt habove)).1 (by omega)
      have hkept := (Document.mem_keptAbove_iff hline).2 ⟨hother, habove, hblock⟩
      obtain ⟨pre, suf, hlist, ⟨-, hpre⟩, -⟩ := hiff.1 hfound
      have hsorted := Document.pairwise_keptAbove hle
      rw [hlist] at hkept hsorted
      rcases List.mem_append.1 hkept with hkept | hkept
      · rw [hpre other hkept] at haccept
        cases haccept
      · rcases List.mem_cons.1 hkept with rfl | hkept
        · omega
        · have := (List.pairwise_cons.1 (List.pairwise_append.1 hsorted).2.1).1 other hkept
          omega
  · exact Document.blockBounds?_covers hstatement hspan

/-- The class around a method whose header is not accepted; the last statement of the method goes
back to the first column in brackets. -/
theorem enclosing_header_is_innermost_past_method :
    let d := Document.ofText "class A:\n  def f():\n    x = 1\n    y = [\n1]\n  z = 2\n".toList
    (d.StartsCode 4 ∧ d.keptAbove 4 = [2, 1]) ∧ (1 < 4 ∧ 4 ≤ d.blockEnd 1) ∧
      (d.statementAt? 40 = some 4 ∧ d.blockBounds? 40 = some ⟨11, 42⟩) ∧
      11 ≤ d.buffer.indentationEnd 4 ∧ d.buffer.lineEnd (d.statementEnd 4) ≤ 42 := by
  intro d
  have hfour : d.StartsCode 4 := by decide +kernel
  have hfound : (d.enclosingHeaders 4).find? (· == 1) = some 1 := by decide +kernel
  have hat : d.statementAt? 40 = some 4 := by decide +kernel
  have hspan : d.blockBounds? 40 = some ⟨11, 42⟩ := by decide +kernel
  obtain ⟨hsearch, hbounds⟩ := enclosing_header_is_innermost d
  refine ⟨⟨hfour, by decide +kernel⟩, ?_, ⟨hat, hspan⟩, hbounds 40 4 ⟨11, 42⟩ hat hspan⟩
  exact (((hsearch 4 hfour (· == 1)).2 1).2 hfound).1

end Offside
