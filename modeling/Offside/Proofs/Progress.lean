import Offside.Proofs.Guarded.Questions
import Offside.Proofs.IndentUnit
import Offside.Proofs.Loops

/-!
# Motions make progress

A motion starts from the statement at an offset, which may begin above the offset or, for a decorator,
belong to a definition that begins below it.  Wherever it leads, the target of a motion forwards lies
behind the offset and that of a motion backwards before it, so a motion can be repeated only finitely
often.

* `Buffer.lt_indentationEnd_of_lt`, `indentationEnd_lt_of_lt`: offsets and the lines around theirs;
* `Document.lt_of_statementAt?`: what comes after the statement at an offset;
* `Document.lt_of_forwardBlock`, `lt_of_backwardBlock`, …: one motion each;
* `Document.definitionAt?_of_between`: all decorators of a definition lead to it;
* `motions_progress`.
-/

namespace Offside

/-! ### Lines and offsets -/

namespace Buffer

variable {b : Buffer} {m n offset : Nat}

/-- An offset lies before everything after the indentation of the lines below its own. -/
theorem lt_indentationEnd_of_lt (h : b.lineOfOffset offset < n) (hn : n ≤ b.lineCount) :
    offset < b.indentationEnd n := by
  refine Nat.lt_of_lt_of_le ?_ (b.lineStart_le_indentationEnd n)
  by_contra hge
  have hle := (lineStart_le_iff (show 1 ≤ n by omega) hn).1 (Nat.le_of_not_lt hge)
  omega

/-- An offset lies behind the start of everything on the lines above its own. -/
theorem indentationEnd_lt_of_lt (hm : 1 ≤ m) (h : m < b.lineOfOffset offset) :
    b.indentationEnd m < offset := by
  obtain ⟨hone, hcount⟩ := b.lineOfOffset_mem offset
  have hstart : b.lineStart (b.lineOfOffset offset) ≤ offset :=
    (lineStart_le_iff hone hcount).2 (Nat.le_refl _)
  have hend := (lineEnd_lt_lineStart hm h hcount).1
  have hle := b.indentationEnd_le m
  omega

/-- What follows the indentation of lines comes in the order of the lines. -/
theorem indentationEnd_lt_indentationEnd (hm : 1 ≤ m) (hmn : m < n) (hn : n ≤ b.lineCount) :
    b.indentationEnd m < b.indentationEnd n :=
  Nat.lt_of_le_of_lt (b.indentationEnd_le m) (lineEnd_lt_indentationEnd hm hmn hn)

end Buffer

/-- A loop ends if every turn that goes on makes some number smaller. -/
theorem exists_ends_of_measure {σ α : Type} {turn : σ → Turn σ α} (measure : σ → Nat)
    (h : ∀ s t, turn s = .next t → measure t < measure s) (s : σ) : ∃ a, Ends turn s a := by
  induction hn : measure s using Nat.strong_induction_on generalizing s with
  | _ n ih =>
    cases hturn : turn s with
    | done a => exact ⟨a, .done hturn⟩
    | next t =>
      obtain ⟨a, ha⟩ := ih (measure t) (hn ▸ h s t hturn) t rfl
      exact ⟨a, .next hturn ha⟩

namespace Document

variable {d : Document} {offset target statement line after limit header : Nat}

/-! ### The statement at an offset -/

/-- The statement at an offset starts on or above its line, and between that statement and the line
there is no code. -/
theorem lt_of_statementAt? (h : d.statementAt? offset = some statement) :
    statement ≤ d.buffer.lineOfOffset offset ∧
      ∀ n, d.isBlankOrComment n = false → d.statementEnd statement < n →
        d.buffer.lineOfOffset offset < n := by
  obtain ⟨hone, hcount⟩ := d.buffer.lineOfOffset_mem offset
  obtain ⟨l, hl, rfl⟩ := Option.map_eq_some_iff.1 h
  -- the line with code at or before the offset
  obtain ⟨hlo, hhi, hblank⟩ : 1 ≤ l ∧ l ≤ d.buffer.lineOfOffset offset ∧
      ∀ k, l < k → k ≤ d.buffer.lineOfOffset offset → d.isBlankOrComment k = true := by
    rw [codeLineAtOrBefore?] at hl
    split at hl
    · next hblank =>
      obtain ⟨hlo, hlt, -, hbetween⟩ := previousCodeLine?_eq_some hl
      refine ⟨hlo, Nat.le_of_lt hlt, fun k hk hkl => ?_⟩
      rcases Nat.eq_or_lt_of_le hkl with rfl | hkl
      · exact hblank
      · exact hbetween k hk hkl
    · cases hl
      exact ⟨hone, Nat.le_refl _, fun k hk hkl => by omega⟩
  have hle : l ≤ d.lineCount := Nat.le_trans hhi hcount
  have hstart := statementStart_le hlo hle
  have hend := (statementEnd_mem hlo hle).1
  have hsame := ((isStatement_of_line hlo hle).bounds_eq (Nat.le_refl _)
    (isStatement_of_line hlo hle).first_le).2
  refine ⟨Nat.le_trans hstart hhi, fun n hcode hlt => ?_⟩
  by_contra hge
  rw [hblank n (by omega) (by omega)] at hcode
  cases hcode

/-- Without a statement at an offset there is no code on its line. -/
theorem isBlankOrComment_of_statementAt? (h : d.statementAt? offset = none) :
    d.isBlankOrComment (d.buffer.lineOfOffset offset) = true := by
  rw [statementAt?, Option.map_eq_none_iff, codeLineAtOrBefore?] at h
  split at h
  · assumption
  · cases h

/-! ### Forwards -/

/-- A header that is found below all code at an offset lies behind the offset. -/
theorem lt_of_headerBetween?
    (hafter : ∀ n, d.isBlankOrComment n = false → after < n → d.buffer.lineOfOffset offset < n)
    (h : d.headerBetween? after limit = some line) : offset < d.buffer.indentationEnd line := by
  have hmem := (List.takeWhile_sublist _).subset (List.mem_of_find?_eq_some h)
  obtain ⟨hlt, hle⟩ := mem_statementsAfter hmem
  exact Buffer.lt_indentationEnd_of_lt
    (hafter line (isBlankOrComment_of_mem_afterFrom hmem) hlt) hle

/-- Going through blocks that reach down to the line of an offset leads behind the offset. -/
theorem lt_of_forwardBlockIn {headers : List Nat}
    (hafter : ∀ n, d.isBlankOrComment n = false → after < n → d.buffer.lineOfOffset offset < n)
    (hheaders : ∀ k ∈ headers, ∀ n, d.isBlankOrComment n = false → d.blockEnd k < n →
      d.buffer.lineOfOffset offset < n)
    (h : d.forwardBlockIn offset after headers = some target) : offset < target := by
  induction headers generalizing after with
  | nil =>
    obtain ⟨line, hline, rfl⟩ := Option.map_eq_some_iff.1 h
    exact lt_of_headerBetween? hafter hline
  | cons first rest ih =>
    rw [forwardBlockIn] at h
    split at h
    · next line hline =>
      cases h
      exact lt_of_headerBetween? hafter hline
    · split at h
      · next hahead =>
        cases h
        exact hahead
      · exact ih (hheaders first List.mem_cons_self)
          (fun k hk => hheaders k (List.mem_cons_of_mem first hk)) h

theorem lt_of_forwardBlock (h : d.forwardBlock offset = some target) : offset < target := by
  rw [forwardBlock] at h
  cases hstatement : d.statementAt? offset with
  | none =>
    rw [hstatement] at h
    refine lt_of_forwardBlockIn ?_ (by simp) h
    intro n hcode hlt
    have hblank := isBlankOrComment_of_statementAt? hstatement
    by_contra hge
    obtain rfl : n = d.buffer.lineOfOffset offset := by omega
    rw [hcode] at hblank
    cases hblank
  | some statement =>
    rw [hstatement] at h
    have hcode := startsCode_of_statementAt? hstatement
    have hbelow := (lt_of_statementAt? hstatement).2
    refine lt_of_forwardBlockIn hbelow ?_ h
    -- the statement lies in each of the blocks, so they end no earlier than it does
    intro k hk n hn hlt
    refine hbelow n hn (Nat.lt_of_le_of_lt ?_ hlt)
    have haround : ∀ k ∈ d.enclosingHeaders statement, d.statementEnd statement ≤ d.blockEnd k := by
      intro k hk
      have hencloses := encloses_of_mem_enclosingHeaders hcode hk
      exact statementEnd_le_blockEnd hencloses.startsCode hcode hencloses.inBlock
    split at hk
    · rcases List.mem_cons.1 hk with rfl | hk
      · exact statementEnd_le_blockEnd hcode hcode (.refl d k)
      · exact haround k hk
    · exact haround k hk

theorem lt_of_forwardStatement (h : d.forwardStatement offset = some target) :
    offset < target := by
  obtain ⟨hone, hcount⟩ := d.buffer.lineOfOffset_mem offset
  obtain ⟨line, hline, rfl⟩ := Option.map_eq_some_iff.1 h
  have hnext : d.buffer.lineOfOffset offset < line ∧ line ≤ d.lineCount := by
    split at hline
    · obtain ⟨hlt, hle, -⟩ := nextCodeLine?_eq_some_iff.1 hline
      exact ⟨hlt, hle⟩
    · exact nextStatement?_lt hone hcount hline
  exact Buffer.lt_indentationEnd_of_lt hnext.1 hnext.2

theorem lt_of_endOfDefinition (h : d.endOfDefinition offset = some target) : offset < target := by
  obtain ⟨hone, hcount⟩ := d.buffer.lineOfOffset_mem offset
  rw [endOfDefinition] at h
  split at h
  · next bounds hbounds =>
    cases h
    simpa using (Option.filter_eq_some_iff.1 hbounds).2
  · obtain ⟨line, hline, rfl⟩ := Option.map_eq_some_iff.1 h
    obtain ⟨hlt, hle⟩ := mem_statementsBelow hone hcount (List.mem_of_find?_eq_some hline)
    obtain ⟨hend, hend'⟩ := blockEnd_mem (d := d) (show 1 ≤ line by omega) hle
    exact Nat.lt_of_lt_of_le (Buffer.lt_indentationEnd_of_lt hlt hle)
      (Buffer.indentationEnd_le_lineEnd (show 1 ≤ line by omega) hend hend')

/-! ### Backwards -/

/-- What starts above the statement at an offset starts before the offset. -/
theorem indentationEnd_lt_of_statementAt? (h : d.statementAt? offset = some statement)
    (hone : 1 ≤ line) (hlt : line < statement) : d.buffer.indentationEnd line < offset :=
  Buffer.indentationEnd_lt_of_lt hone (Nat.lt_of_lt_of_le hlt (lt_of_statementAt? h).1)

theorem lt_of_upBlock (h : d.upBlock offset = some target) : target < offset := by
  obtain ⟨statement, hstatement, h⟩ := Option.bind_eq_some_iff.1 h
  obtain ⟨line, hline, rfl⟩ := Option.map_eq_some_iff.1 h
  obtain ⟨hone, hlt⟩ := mem_enclosingHeaders (List.mem_of_mem_head? hline)
  exact indentationEnd_lt_of_statementAt? hstatement hone hlt

theorem lt_of_backwardBlock (h : d.backwardBlock offset = some target) : target < offset := by
  obtain ⟨statement, hstatement, h⟩ := Option.bind_eq_some_iff.1 h
  dsimp only at h
  split at h
  · next hstart =>
    cases h
    simpa using (Bool.and_eq_true_iff.1 hstart).1
  · obtain ⟨line, hline, rfl⟩ := Option.map_eq_some_iff.1 h
    have habove : 1 ≤ line ∧ line < statement := by
      rcases Option.or_eq_some_iff.1 hline with hline | ⟨-, hline⟩
      · exact mem_statementsAbove
          ((List.takeWhile_sublist _).subset (List.mem_of_find?_eq_some hline))
      · exact mem_enclosingHeaders (List.mem_of_mem_head? hline)
    exact indentationEnd_lt_of_statementAt? hstatement habove.1 habove.2

theorem lt_of_backwardStatement (h : d.backwardStatement offset = some target) :
    target < offset := by
  obtain ⟨statement, hstatement, h⟩ := Option.bind_eq_some_iff.1 h
  dsimp only at h
  split at h
  · next hstart =>
    cases h
    exact hstart
  · obtain ⟨line, hline, rfl⟩ := Option.map_eq_some_iff.1 h
    obtain ⟨hone, hlt⟩ := previousStatement?_lt hline
    exact indentationEnd_lt_of_statementAt? hstatement hone hlt

/-! ### Back to the beginning of a definition -/

/-- Decorators at the column of a definition are passed over on the way to it. -/
theorem definitionBelow?_append {column : Nat} {pre suf : List Nat}
    (h : ∀ l ∈ pre, d.buffer.indentation l = column ∧ isDecorator (d.buffer.lineText l) = true) :
    d.definitionBelow? column (pre ++ suf) = d.definitionBelow? column suf := by
  induction pre with
  | nil => rfl
  | cons l pre ih =>
    obtain ⟨hcolumn, hdecorator⟩ := h l List.mem_cons_self
    rw [List.cons_append, definitionBelow?, if_neg (not_not_intro hcolumn), if_pos hdecorator]
    exact ih fun k hk => h k (List.mem_cons_of_mem l hk)

/-- Only decorators at the same column stand between a decorator and its definition. -/
theorem exists_of_definitionBelow? {column : Nat} {below : List Nat}
    (h : d.definitionBelow? column below = some header) :
    ∃ pre suf, below = pre ++ header :: suf ∧
      (∀ l ∈ pre, d.buffer.indentation l = column ∧ isDecorator (d.buffer.lineText l) = true) ∧
      d.buffer.indentation header = column ∧ d.isDefinition header = true := by
  induction below with
  | nil => cases h
  | cons l below ih =>
    rw [definitionBelow?] at h
    by_cases hcolumn : d.buffer.indentation l ≠ column
    · rw [if_pos hcolumn] at h
      cases h
    · rw [if_neg hcolumn] at h
      by_cases hdecorator : isDecorator (d.buffer.lineText l) = true
      · rw [if_pos hdecorator] at h
        obtain ⟨pre, suf, rfl, hpre, hheader⟩ := ih h
        refine ⟨l :: pre, suf, rfl, ?_, hheader⟩
        intro k hk
        rcases List.mem_cons.1 hk with rfl | hk
        · exact ⟨not_not.1 hcolumn, hdecorator⟩
        · exact hpre k hk
      · rw [if_neg hdecorator] at h
        split at h
        · next hdef =>
          cases h
          exact ⟨[], below, rfl, by simp, not_not.1 hcolumn, hdef⟩
        · cases h

/-- What a statement decorates is a definition further down at its column. -/
theorem decoratedDefinition?_spec (hstatement : d.StartsCode statement)
    (h : d.decoratedDefinition? statement = some header) :
    (d.StartsCode header ∧ statement < header) ∧
      d.buffer.indentation header = d.buffer.indentation statement ∧
      d.isDefinition header = true := by
  obtain ⟨pre, suf, hbelow, -, hheader⟩ := exists_of_definitionBelow? h
  have hmem : header ∈ d.statementsBelow statement := by
    rw [hbelow]
    exact List.mem_append_right pre List.mem_cons_self
  exact ⟨(mem_statementsBelow_iff hstatement.mem.1 hstatement.mem.2).1 hmem, hheader⟩

/-- What is decorated by a statement is decorated by all statements between the two. -/
theorem decoratedDefinition?_of_between (hstatement : d.StartsCode statement)
    (hdecorator : isDecorator (d.buffer.lineText statement) = true)
    (h : d.decoratedDefinition? statement = some header) (hline : d.StartsCode line)
    (hlo : statement ≤ line) (hhi : line < header) :
    isDecorator (d.buffer.lineText line) = true ∧ d.decoratedDefinition? line = some header := by
  rcases Nat.eq_or_lt_of_le hlo with rfl | hlt
  · exact ⟨hdecorator, h⟩
  obtain ⟨pre, suf, hbelow, hpre, -⟩ := exists_of_definitionBelow? h
  have hmem : line ∈ pre ++ header :: suf := by
    rw [← hbelow]
    exact (mem_statementsBelow_iff hstatement.mem.1 hstatement.mem.2).2 ⟨hline, hlt⟩
  have hsorted := d.pairwise_statementsAfter (d.statementEnd statement)
  rw [← statementsBelow, hbelow] at hsorted
  -- the line comes before the header, so it is one of the decorators passed over
  have hline' : line ∈ pre := by
    rcases List.mem_append.1 hmem with hl | hl
    · exact hl
    · rcases List.mem_cons.1 hl with rfl | hl
      · omega
      · have := (List.pairwise_cons.1 (List.pairwise_append.1 hsorted).2.1).1 line hl
        omega
  obtain ⟨hcolumn, hdec⟩ := hpre line hline'
  obtain ⟨first, second, rfl⟩ := List.append_of_mem hline'
  have hsplit : d.statementsBelow statement = first ++ line :: (second ++ header :: suf) := by
    rw [hbelow]
    simp
  have hrest := statementsBelow_of_append hsplit
  refine ⟨hdec, ?_⟩
  have hskip : d.definitionBelow? (d.buffer.indentation statement)
      ((first ++ line :: second) ++ header :: suf) = some header := hbelow ▸ h
  rw [definitionBelow?_append hpre] at hskip
  rw [decoratedDefinition?, hrest, hcolumn, definitionBelow?_append, hskip]
  exact fun l hl => hpre l (List.mem_append_right first (List.mem_cons_of_mem line hl))

/-- The statement at an offset lies in the block of the definition there, or decorates it. -/
theorem definitionAt?_spec (h : d.definitionAt? offset = some header) :
    ∃ statement, d.statementAt? offset = some statement ∧
      (d.StartsCode header ∧ d.isDefinition header = true) ∧
      (d.InBlock header statement ∨ isDecorator (d.buffer.lineText statement) = true ∧
        d.decoratedDefinition? statement = some header) := by
  obtain ⟨statement, hstatement, h⟩ := Option.bind_eq_some_iff.1 h
  have hcode := startsCode_of_statementAt? hstatement
  refine ⟨statement, hstatement, ?_⟩
  dsimp only at h
  split at h
  · next decorated hdecorated =>
    cases h
    split at hdecorated
    · next hdecorator =>
      obtain ⟨⟨hheader, -⟩, -, hdef⟩ := decoratedDefinition?_spec hcode hdecorated
      exact ⟨⟨hheader, hdef⟩, .inr ⟨hdecorator, hdecorated⟩⟩
    · cases hdecorated
  · split at h
    · next hdef =>
      cases h
      exact ⟨⟨hcode, hdef⟩, .inl (.refl d _)⟩
    · have hencloses := encloses_of_mem_enclosingHeaders hcode (List.mem_of_find?_eq_some h)
      exact ⟨⟨hencloses.startsCode, List.find?_some h⟩, .inl hencloses.inBlock⟩

/-- At a statement between a decorator and its definition there is that definition. -/
theorem definitionAt?_of_between (hstatement : d.StartsCode statement)
    (hdecorator : isDecorator (d.buffer.lineText statement) = true)
    (h : d.decoratedDefinition? statement = some header)
    (hlo : statement ≤ d.buffer.lineOfOffset offset)
    (hhi : d.buffer.lineOfOffset offset < header) : d.definitionAt? offset = some header := by
  obtain ⟨hone, hcount⟩ := d.buffer.lineOfOffset_mem offset
  -- there is a line with code at or before the offset, at or below the decorator
  obtain ⟨l, hl, hsl, hlo'⟩ : ∃ l, d.codeLineAtOrBefore? (d.buffer.lineOfOffset offset) = some l ∧
      statement ≤ l ∧ l ≤ d.buffer.lineOfOffset offset := by
    rw [codeLineAtOrBefore?]
    split
    · next hblank =>
      have hlt : statement < d.buffer.lineOfOffset offset := by
        rcases Nat.eq_or_lt_of_le hlo with heq | hlt
        · rw [← heq, hstatement.2] at hblank
          cases hblank
        · exact hlt
      obtain ⟨p, hp, hsp⟩ := exists_previousCodeLine? hstatement.mem.1 hlt hstatement.2
      exact ⟨p, hp, hsp, Nat.le_of_lt (previousCodeLine?_eq_some hp).2.1⟩
    · exact ⟨_, rfl, hlo, Nat.le_refl _⟩
  have hlcount : l ≤ d.lineCount := Nat.le_trans hlo' hcount
  have hat : d.statementAt? offset = some (d.statementStart l) := by
    rw [statementAt?, hl, Option.map_some]
  have hstart := statementStart_le (Nat.le_trans hstatement.mem.1 hsl) hlcount
  obtain ⟨hdec, hdef⟩ := decoratedDefinition?_of_between hstatement hdecorator h
    (startsCode_of_statementAt? hat) (hstatement.le_statementStart hsl hlcount) (by omega)
  rw [definitionAt?, hat]
  simp [hdec, hdef]

/-- The start of the definition at an offset is before it, or the one at the end of the line before
that start is further up. -/
theorem beginningOfDefinition_cases (h : d.beginningOfDefinition offset = some target) :
    ∃ bounds, d.definitionBounds? offset = some bounds ∧
      (bounds.start < offset ∧ target = bounds.start ∨
        ¬ bounds.start < offset ∧ ∃ before previous,
          d.buffer.lineStart (d.buffer.lineOfOffset bounds.start) = before + 1 ∧
          d.definitionBounds? before = some previous ∧ previous.start < bounds.start ∧
          target = previous.start) := by
  obtain ⟨bounds, hbounds, h⟩ := Option.bind_eq_some_iff.1 h
  refine ⟨bounds, hbounds, ?_⟩
  split at h
  · next hlt =>
    cases h
    exact .inl ⟨hlt, rfl⟩
  next hstart =>
  split at h
  · cases h
  next before hbefore =>
  obtain ⟨previous, hprevious, h⟩ := Option.bind_eq_some_iff.1 h
  split at h
  · next hlt =>
    cases h
    exact .inr ⟨hstart, before, previous, hbefore, hprevious, hlt, rfl⟩
  · cases h

theorem lt_of_beginningOfDefinition (h : d.beginningOfDefinition offset = some target) :
    target < offset := by
  obtain ⟨bounds, hbounds, ⟨hlt, rfl⟩ | ⟨hstart, before, previous, hbefore, hprevious, hlt, rfl⟩⟩ :=
    beginningOfDefinition_cases h
  · exact hlt
  obtain ⟨header, hheader, hspan⟩ := Option.bind_eq_some_iff.1 hbounds
  cases hspan
  obtain ⟨header', hheader', hspan⟩ := Option.bind_eq_some_iff.1 hprevious
  cases hspan
  obtain ⟨hone, hcount⟩ := definitionAt?_mem hheader
  obtain ⟨hfirst, hfirst'⟩ := firstDecorator_mem hone hcount
  have hfirstCount : d.firstDecorator header ≤ d.lineCount := Nat.le_trans hfirst' hcount
  obtain ⟨hone', hcount'⟩ := definitionAt?_mem hheader'
  obtain ⟨hfirst₂, hfirst₂'⟩ := firstDecorator_mem hone' hcount'
  change ¬ d.buffer.indentationEnd (d.firstDecorator header) < offset at hstart
  change d.buffer.lineStart (d.buffer.lineOfOffset
    (d.buffer.indentationEnd (d.firstDecorator header))) = before + 1 at hbefore
  rw [Buffer.lineOfOffset_indentationEnd hfirst hfirstCount] at hbefore
  change d.buffer.indentationEnd (d.firstDecorator header') <
    d.buffer.indentationEnd (d.firstDecorator header) at hlt
  show d.buffer.indentationEnd (d.firstDecorator header') < offset
  -- the definition before starts on a line above
  have habove : d.firstDecorator header' < d.firstDecorator header := by
    by_contra hge
    rcases Nat.eq_or_lt_of_le (Nat.le_of_not_lt hge) with heq | hgt
    · rw [heq] at hlt
      omega
    · have := Buffer.indentationEnd_lt_indentationEnd hfirst hgt (Nat.le_trans hfirst₂' hcount')
      omega
  by_cases hline : d.firstDecorator header ≤ d.buffer.lineOfOffset offset
  · exact Buffer.indentationEnd_lt_of_lt hfirst₂ (Nat.lt_of_lt_of_le habove hline)
  · -- the offset is at a decorator further up, and so is the line before the definition
    obtain ⟨statement, hstatement, -, hcases⟩ := definitionAt?_spec hheader
    have hle := (lt_of_statementAt? hstatement).1
    obtain ⟨hdecorator, hdecorated⟩ := hcases.resolve_left fun hblock => by
      have := hblock.1
      omega
    have hbelow : d.buffer.lineOfOffset before < d.firstDecorator header := by
      by_contra hge
      have hstart' : d.buffer.lineStart (d.firstDecorator header) ≤ before :=
        (Buffer.lineStart_le_iff hfirst hfirstCount).2 (by omega)
      omega
    have hreach : statement ≤ d.buffer.lineOfOffset before := by
      have hcode := startsCode_of_statementAt? hstatement
      refine (Buffer.lineStart_le_iff hcode.mem.1 hcode.mem.2).1 ?_
      have := Buffer.lineStart_lt_lineStart (b := d.buffer) hcode.mem.1
        (show statement < d.firstDecorator header by omega) hfirstCount
      omega
    have hsame := definitionAt?_of_between (startsCode_of_statementAt? hstatement) hdecorator
      hdecorated hreach (by omega)
    rw [hheader'] at hsame
    cases hsame
    omega

end Document

/-- Whether a motion leads forwards. -/
def Motion.isForward : Motion → Bool
  | .forwardBlock | .forwardStatement | .endOfDefinition => true
  | .backwardBlock | .upBlock | .backwardStatement | .beginningOfDefinition => false

namespace Document

/-- Repeats a motion until it leads nowhere. -/
def moveTurn (d : Document) (motion : Motion) (offset : Nat) : Turn Nat Nat :=
  match d.move offset motion with
  | none => .done offset
  | some target => .next target

variable {d : Document} {motion : Motion} {offset target : Nat}

theorem move_eq_of_moveTurn (h : d.moveTurn motion offset = .next target) :
    d.move offset motion = some target := by
  rw [moveTurn] at h
  split at h
  · cases h
  · next t ht =>
    cases h
    exact ht

/-- A motion forwards leads behind the offset, and one backwards before it. -/
theorem move_progress (h : d.move offset motion = some target) :
    if motion.isForward then offset < target else target < offset := by
  cases motion with
  | forwardBlock => exact lt_of_forwardBlock h
  | backwardBlock => exact lt_of_backwardBlock h
  | upBlock => exact lt_of_upBlock h
  | forwardStatement => exact lt_of_forwardStatement h
  | backwardStatement => exact lt_of_backwardStatement h
  | beginningOfDefinition => exact lt_of_beginningOfDefinition h
  | endOfDefinition => exact lt_of_endOfDefinition h

/-- A motion cannot be repeated for ever. -/
theorem exists_ends_moveTurn (d : Document) (motion : Motion) (offset : Nat) :
    ∃ last, Ends (d.moveTurn motion) offset last := by
  cases hforward : motion.isForward with
  | true =>
    refine exists_ends_of_measure (fun o => d.text.size - o) (fun s t hturn => ?_) offset
    have hmove := move_eq_of_moveTurn hturn
    have hlt := move_progress hmove
    have hle := (isBoundary_of_move hmove).le_size
    rw [if_pos hforward] at hlt
    omega
  | false =>
    refine exists_ends_of_measure id (fun s t hturn => ?_) offset
    have hlt := move_progress (move_eq_of_moveTurn hturn)
    rwa [if_neg (by simp [hforward])] at hlt

end Document

/-- **Every motion makes strict progress.**  Where a motion to the next block, statement or end of a
definition leads lies behind the offset, and where a motion to the previous block, statement,
beginning of a definition or to the block around leads lies before it; all of these are offsets of the
text.  So repeating a motion comes to an end from every offset.  The searches that the motions consist
of end as well, in every document, when they are written as loops. -/
theorem motions_progress (d : Document) :
    (∀ motion offset target, d.move offset motion = some target →
      target ≤ d.text.size ∧ if motion.isForward then offset < target else target < offset) ∧
    (∀ motion offset, ∃ last, Ends (d.moveTurn motion) offset last) ∧
    d.LoopsEnd := by
  refine ⟨fun motion offset target h => ⟨?_, ?_⟩, d.exists_ends_moveTurn, d.loopsEnd⟩
  · exact (Document.isBoundary_of_move h).le_size
  · exact Document.move_progress h

/-- A decorator with a blank line below it, from which the end of its definition is ahead, and a
definition in front of it. -/
theorem motions_progress_at_decorator :
    let d := Document.ofText "def f():\n  a\n@b\n\ndef g():\n  c\n".toList
    (d.move 13 .endOfDefinition = some 29 ∧ d.move 17 .beginningOfDefinition = none ∧
      d.move 13 .backwardBlock = some 0) ∧ 13 < 29 ∧ 0 < 13 := by
  intro d
  have hend : d.move 13 .endOfDefinition = some 29 := by decide +kernel
  have hback : d.move 13 .backwardBlock = some 0 := by decide +kernel
  exact ⟨⟨hend, by decide +kernel, hback⟩, ((motions_progress d).1 _ _ _ hend).2,
    ((motions_progress d).1 _ _ _ hback).2⟩

end Offside
