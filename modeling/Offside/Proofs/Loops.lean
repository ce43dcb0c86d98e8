import Offside.Proofs.Headers

/-!
# Walks over statements as loops

Searches over statements, written as loops that take one turn after another with nothing that bounds
the number of turns.  Each of them ends, in every document, with the answer of the function that
does the same search on a list of statements.

* `Turn`, `Ends`: loops, and how they end;
* `Document.headerTurn`, `blockEndTurn`, `decoratedTurn`, `decoratorTurn`, `pathTurn`, `searchTurn`,
  `forwardTurn`, `backwardTurn`, `definitionTurn`: the loops;
* `Document.LoopsEnd`, `loopsEnd`: they all end.
-/

namespace Offside

/-- What one turn of a loop leads to: another state, from which the loop goes on, or its answer. -/
inductive Turn (σ α : Type)
  | next (s : σ)
  | done (a : α)

/-- A loop ends with an answer when started in a state: after some number of turns it gives it. -/
inductive Ends {σ α : Type} (turn : σ → Turn σ α) : σ → α → Prop
  | done {s : σ} {a : α} : turn s = .done a → Ends turn s a
  | next {s s' : σ} {a : α} : turn s = .next s' → Ends turn s' a → Ends turn s a

namespace Document

variable {d : Document} {line : Nat}

/-! ### The loops -/

/-- Looks for a header around a line among the statements above, by the column below which the next
one has to stand and the statement that was reached. -/
def headerTurn (d : Document) (accept : Nat → Bool) :
    Nat × Nat → Turn (Nat × Nat) (Option Nat)
  | (threshold, current) =>
    if threshold = 0 then .done none
    else
      match d.previousStatement? current with
      | none => .done none
      | some candidate =>
        let column := d.buffer.indentation candidate
        if column < threshold then
          if !d.isBlockHeader candidate then .done none
          else if accept candidate then .done (some candidate)
          else .next (column, candidate)
        else .next (threshold, candidate)

/-- Goes down over the lines of a block whose header stands at a column, by the last line of the
block so far and the line that comes next. -/
def blockEndTurn (d : Document) (column : Nat) : Nat × Nat → Turn (Nat × Nat) Nat
  | (last, line) =>
    if d.lineCount < line then .done last
    else if d.isBlankOrComment line then .next (last, line + 1)
    else if d.buffer.indentation line ≤ column then .done last
    else .next (d.statementEnd line, d.statementEnd line + 1)

/-- Goes down over decorators at a column to the definition below them. -/
def decoratedTurn (d : Document) (column current : Nat) : Turn Nat (Option Nat) :=
  match d.nextStatement? current with
  | none => .done none
  | some line =>
    if d.buffer.indentation line ≠ column then .done none
    else if isDecorator (d.buffer.lineText line) then .next line
    else .done (if d.isDefinition line then some line else none)

/-- Goes up over decorators at a column. -/
def decoratorTurn (d : Document) (column first : Nat) : Turn Nat Nat :=
  if first ≤ 1 then .done first
  else
    let above := d.statementStart (first - 1)
    if d.isBlankOrComment above || d.buffer.indentation above != column ||
        !isDecorator (d.buffer.lineText above) then .done first
    else .next above

/-- Collects the names of definitions from the inside out. -/
def pathTurn (d : Document) : List Text × Option Nat → Turn (List Text × Option Nat) (List Text)
  | (path, none) => .done path.reverse
  | (path, some header) =>
    .next (path ++ (definedName? (d.buffer.lineText header)).toList,
      (d.enclosingHeaders header).find? d.isDefinition)

/-- Looks for a header from a statement on, down to a line. -/
def searchTurn (d : Document) (limit : Nat) (candidate : Option Nat) :
    Turn (Option Nat) (Option Nat) :=
  match candidate with
  | none => .done none
  | some line =>
    if limit < line then .done none
    else if d.isBlockHeader line then .done (some line)
    else .next (d.nextStatement? line)

/-- Looks for a boundary of a block after an offset, by the line after which to look and the header
of the block to look in. -/
def forwardTurn (d : Document) (offset : Nat) :
    Nat × Option Nat → Turn (Nat × Option Nat) (Option Nat)
  | (after, parent) =>
    let limit := (parent.map d.blockEnd).getD d.lineCount
    match d.headerBetween? after limit with
    | some line => .done (some (d.buffer.indentationEnd line))
    | none =>
      match parent with
      | none => .done none
      | some header =>
        if offset < d.buffer.lineEnd limit then .done (some (d.buffer.lineEnd limit))
        else .next (limit, (d.enclosingHeaders header).head?)

/-- Where to look for a boundary of a block first. -/
def forwardStart (d : Document) (offset : Nat) : Nat × Option Nat :=
  match d.statementAt? offset with
  | none => (d.buffer.lineOfOffset offset - 1, none)
  | some statement => (d.statementEnd statement, d.blockOf? statement)

/-- Goes up to the next header below a line. -/
def backwardTurn (d : Document) (floor current : Nat) : Turn Nat (Option Nat) :=
  match d.previousStatement? current with
  | none => .done none
  | some line =>
    if line ≤ floor then .done none
    else if d.isBlockHeader line then .done (some line)
    else .next line

/-- Goes down to the next definition. -/
def definitionTurn (d : Document) (current : Nat) : Turn Nat (Option Nat) :=
  match d.nextStatement? current with
  | none => .done none
  | some line => if d.isDefinition line then .done (some line) else .next line

/-! ### Going up -/

theorem headersAround_zero (d : Document) (above : List Nat) : d.headersAround 0 above = [] := by
  induction above with
  | nil => rfl
  | cons l above ih => rw [headersAround, if_neg (Nat.not_lt_zero _), ih]

theorem ends_headerTurn (accept : Nat → Bool) (threshold : Nat) (hline : line ≤ d.lineCount + 1) :
    Ends (d.headerTurn accept) (threshold, line)
      ((d.headersAround threshold (d.statementsAbove line)).find? accept) := by
  induction line using Nat.strong_induction_on generalizing threshold with
  | _ line ih =>
    by_cases hzero : threshold = 0
    · subst hzero
      rw [headersAround_zero]
      exact .done (by simp [headerTurn])
    rw [statementsAbove_eq hline]
    cases hprevious : d.previousStatement? line with
    | none => exact .done (by simp [headerTurn, hzero, hprevious, headersAround])
    | some s =>
      have hs := (previousStatement?_lt hprevious).2
      dsimp only
      rw [headersAround]
      by_cases hlt : d.buffer.indentation s < threshold
      · rw [if_pos hlt]
        by_cases hheader : d.isBlockHeader s = true
        · rw [if_pos hheader]
          by_cases haccept : accept s = true
          · rw [List.find?_cons_of_pos haccept]
            exact .done (by simp [headerTurn, hzero, hprevious, hlt, hheader, haccept])
          · rw [List.find?_cons_of_neg haccept]
            refine .next ?_ (ih s hs (d.buffer.indentation s) (by omega))
            simp [headerTurn, hzero, hprevious, hlt, hheader, haccept]
        · rw [if_neg hheader]
          exact .done (by simp [headerTurn, hzero, hprevious, hlt, hheader])
      · rw [if_neg hlt]
        refine .next ?_ (ih s hs threshold (by omega))
        simp [headerTurn, hzero, hprevious, hlt]

theorem ends_backwardTurn (floor : Nat) (hline : line ≤ d.lineCount + 1) :
    Ends (d.backwardTurn floor) line
      (((d.statementsAbove line).takeWhile fun l => decide (floor < l)).find? d.isBlockHeader) := by
  induction line using Nat.strong_induction_on with
  | _ line ih =>
    rw [statementsAbove_eq hline]
    cases hprevious : d.previousStatement? line with
    | none => exact .done (by simp [backwardTurn, hprevious])
    | some s =>
      have hs := (previousStatement?_lt hprevious).2
      dsimp only
      by_cases hfloor : floor < s
      · rw [List.takeWhile_cons_of_pos (by simpa using hfloor)]
        by_cases hheader : d.isBlockHeader s = true
        · rw [List.find?_cons_of_pos hheader]
          exact .done (by simp [backwardTurn, hprevious, hheader, Nat.not_le.2 hfloor])
        · rw [List.find?_cons_of_neg hheader]
          refine .next ?_ (ih s hs (by omega))
          simp [backwardTurn, hprevious, hheader, Nat.not_le.2 hfloor]
      · rw [List.takeWhile_cons_of_neg (by simpa using hfloor)]
        exact .done (by simp [backwardTurn, hprevious, Nat.le_of_not_lt hfloor])

theorem ends_decoratorTurn {column k : Nat} (hone : 1 ≤ line) (hle : line ≤ d.lineCount)
    (hk : line ≤ k) : Ends (d.decoratorTurn column) line (d.decoratorsFrom column k line) := by
  induction k generalizing line with
  | zero => omega
  | succ k ih =>
    rw [decoratorsFrom]
    by_cases hfirst : line ≤ 1
    · rw [if_pos (.inl hfirst)]
      exact .done (by simp [decoratorTurn, hfirst])
    · have habove := statementStart_le (d := d) (m := line - 1) (by omega) (by omega)
      have hmem := d.statementStart_mem (line - 1)
      by_cases hmore : d.isBlankOrComment (d.statementStart (line - 1)) = true ∨
          d.buffer.indentation (d.statementStart (line - 1)) ≠ column ∨
          (!isDecorator (d.buffer.lineText (d.statementStart (line - 1)))) = true
      · rw [if_pos (.inr hmore)]
        refine .done ?_
        rw [decoratorTurn, if_neg hfirst]
        exact if_pos (by simpa [or_assoc] using hmore)
      · rw [if_neg (not_or.2 ⟨hfirst, hmore⟩)]
        refine .next ?_ (ih hmem.1 hmem.2 (by omega))
        rw [decoratorTurn, if_neg hfirst]
        exact if_neg (by simpa [or_assoc] using hmore)

/-! ### Going down -/

/-- Blank lines and comments before the next code line are passed over. -/
theorem nextCodeLine?_succ (hle : line + 1 ≤ d.lineCount) :
    d.nextCodeLine? line =
      if d.isBlankOrComment (line + 1) then d.nextCodeLine? (line + 1) else some (line + 1) := by
  obtain ⟨k, hk⟩ : ∃ k, d.lineCount - line = k + 1 := ⟨d.lineCount - line - 1, by omega⟩
  have hk' : d.lineCount - (line + 1) = k := by omega
  rw [nextCodeLine?, nextCodeLine?, hk, hk', List.range'_succ, List.find?_cons]
  cases d.isBlankOrComment (line + 1) <;> rfl

theorem ends_blockEndTurn (d : Document) (column last line : Nat) :
    Ends (d.blockEndTurn column) (last, line + 1)
      ((((d.statementsAfter line).takeWhile fun l =>
        decide (column < d.buffer.indentation l)).getLast?).elim last d.statementEnd) := by
  induction hn : d.lineCount - line using Nat.strong_induction_on generalizing last line with
  | _ n ih =>
    rw [statementsAfter_eq]
    by_cases hend : d.lineCount < line + 1
    · rw [nextCodeLine?_of_le (by omega)]
      exact .done (by simp [blockEndTurn, hend])
    · rw [nextCodeLine?_succ (by omega)]
      by_cases hblank : d.isBlankOrComment (line + 1) = true
      · rw [if_pos hblank, ← statementsAfter_eq]
        refine .next ?_ (ih (d.lineCount - (line + 1)) (by omega) last (line + 1) rfl)
        simp [blockEndTurn, hend, hblank]
      · rw [if_neg hblank]
        dsimp only
        by_cases hdeeper : column < d.buffer.indentation (line + 1)
        · have hafter := (statementEnd_mem (d := d) (m := line + 1) (by omega) (by omega)).1
          have hrest := ih (d.lineCount - d.statementEnd (line + 1)) (by omega)
            (d.statementEnd (line + 1)) (d.statementEnd (line + 1)) rfl
          rw [List.takeWhile_cons_of_pos (by simpa using hdeeper), List.getLast?_cons]
          have hturn : d.blockEndTurn column (last, line + 1) =
              .next (d.statementEnd (line + 1), d.statementEnd (line + 1) + 1) := by
            simp [blockEndTurn, hend, hblank, Nat.not_le.2 hdeeper]
          refine .next hturn ?_
          rw [Option.elim_some]
          cases hlast : ((d.statementsAfter (d.statementEnd (line + 1))).takeWhile fun l =>
              decide (column < d.buffer.indentation l)).getLast? with
          | none =>
            rw [hlast] at hrest
            exact hrest
          | some l =>
            rw [hlast] at hrest
            exact hrest
        · rw [List.takeWhile_cons_of_neg (by simpa using hdeeper)]
          exact .done (by simp [blockEndTurn, hend, hblank, Nat.le_of_not_lt hdeeper])

/-- The statement after a line is below it. -/
theorem nextStatement?_lt {s : Nat} (hone : 1 ≤ line) (hle : line ≤ d.lineCount)
    (h : d.nextStatement? line = some s) : line < s ∧ s ≤ d.lineCount := by
  obtain ⟨hlt, hs, -⟩ := nextCodeLine?_eq_some_iff.1 h
  have hend := (statementEnd_mem hone hle).1
  exact ⟨by omega, hs⟩

theorem ends_decoratedTurn (column : Nat) (hone : 1 ≤ line) (hle : line ≤ d.lineCount) :
    Ends (d.decoratedTurn column) line (d.definitionBelow? column (d.statementsBelow line)) := by
  induction hn : d.lineCount - line using Nat.strong_induction_on generalizing line with
  | _ n ih =>
    rw [statementsBelow_eq]
    cases hnext : d.nextStatement? line with
    | none => exact .done (by simp [decoratedTurn, hnext, definitionBelow?])
    | some s =>
      obtain ⟨hlt, hs⟩ := nextStatement?_lt hone hle hnext
      dsimp only
      rw [definitionBelow?]
      by_cases hcolumn : d.buffer.indentation s ≠ column
      · rw [if_pos hcolumn]
        exact .done (by simp [decoratedTurn, hnext, hcolumn])
      · rw [if_neg hcolumn]
        by_cases hdecorator : isDecorator (d.buffer.lineText s) = true
        · rw [if_pos hdecorator]
          refine .next ?_ (ih (d.lineCount - s) (by omega) (by omega) hs rfl)
          rw [decoratedTurn, hnext]
          dsimp only
          rw [if_neg hcolumn, if_pos hdecorator]
        · rw [if_neg hdecorator]
          refine .done ?_
          rw [decoratedTurn, hnext]
          dsimp only
          rw [if_neg hcolumn, if_neg hdecorator]

theorem ends_definitionTurn (hone : 1 ≤ line) (hle : line ≤ d.lineCount) :
    Ends d.definitionTurn line ((d.statementsBelow line).find? d.isDefinition) := by
  induction hn : d.lineCount - line using Nat.strong_induction_on generalizing line with
  | _ n ih =>
    rw [statementsBelow_eq]
    cases hnext : d.nextStatement? line with
    | none => exact .done (by simp [definitionTurn, hnext])
    | some s =>
      obtain ⟨hlt, hs⟩ := nextStatement?_lt hone hle hnext
      dsimp only
      by_cases hdef : d.isDefinition s = true
      · rw [List.find?_cons_of_pos hdef]
        exact .done (by simp [definitionTurn, hnext, hdef])
      · rw [List.find?_cons_of_neg hdef]
        refine .next ?_ (ih (d.lineCount - s) (by omega) (by omega) hs rfl)
        simp [definitionTurn, hnext, hdef]

theorem ends_searchTurn (d : Document) (limit after : Nat) :
    Ends (d.searchTurn limit) (d.nextCodeLine? after) (d.headerBetween? after limit) := by
  induction hn : d.lineCount - after using Nat.strong_induction_on generalizing after with
  | _ n ih =>
    rw [headerBetween?, statementsAfter_eq]
    cases hnext : d.nextCodeLine? after with
    | none => exact .done rfl
    | some s =>
      obtain ⟨hlt, hs, -⟩ := nextCodeLine?_eq_some_iff.1 hnext
      have hend := (statementEnd_mem (d := d) (m := s) (by omega) hs).1
      dsimp only
      by_cases hlimit : s ≤ limit
      · rw [List.takeWhile_cons_of_pos (by simpa using hlimit)]
        by_cases hheader : d.isBlockHeader s = true
        · rw [List.find?_cons_of_pos hheader]
          exact .done (by simp [searchTurn, Nat.not_lt.2 hlimit, hheader])
        · rw [List.find?_cons_of_neg hheader]
          refine .next ?_ (ih (d.lineCount - d.statementEnd s) (by omega) (d.statementEnd s) rfl)
          simp [searchTurn, Nat.not_lt.2 hlimit, hheader, nextStatement?]
      · rw [List.takeWhile_cons_of_neg (by simpa using hlimit)]
        exact .done (by simp [searchTurn, Nat.lt_of_not_le hlimit])

/-! ### Going outwards -/

/-- The names that are collected from a header on. -/
theorem ends_pathTurn (path : List Text) (hline : line ≤ d.lineCount) :
    Ends d.pathTurn (path, some line)
      (path ++ (d.definitionsFrom line).filterMap fun l =>
        definedName? (d.buffer.lineText l)).reverse := by
  induction line using Nat.strong_induction_on generalizing path with
  | _ line ih =>
    refine .next rfl ?_
    have hnames : ∀ rest : List Nat, path ++ (line :: rest).filterMap (fun l =>
        definedName? (d.buffer.lineText l)) =
          path ++ (definedName? (d.buffer.lineText line)).toList ++
            rest.filterMap fun l => definedName? (d.buffer.lineText l) := by
      intro rest
      rw [List.filterMap_cons]
      cases definedName? (d.buffer.lineText line) <;> simp
    rw [definitionsFrom_eq hline, hnames]
    cases hfind : (d.enclosingHeaders line).find? d.isDefinition with
    | none =>
      rw [Option.elim_none, List.filterMap_nil, List.append_nil]
      exact .done rfl
    | some header =>
      have hlt := (mem_enclosingHeaders (List.mem_of_find?_eq_some hfind)).2
      exact ih header hlt _ (by omega)

/-- The ascent over the headers around a statement. -/
theorem ends_forwardTurn (offset after : Nat) (headers : List Nat)
    (h : ∀ header rest, headers = header :: rest →
      header ≤ d.lineCount ∧ d.enclosingHeaders header = rest) :
    Ends (d.forwardTurn offset) (after, headers.head?) (d.forwardBlockIn offset after headers) := by
  induction headers generalizing after with
  | nil =>
    rw [forwardBlockIn]
    refine .done ?_
    rw [List.head?_nil, forwardTurn]
    rw [Option.map_none, Option.getD_none]
    cases d.headerBetween? after d.lineCount <;> rfl
  | cons header rest ih =>
    obtain ⟨hle, haround⟩ := h header rest rfl
    have hrest : ∀ outer outers, rest = outer :: outers →
        outer ≤ d.lineCount ∧ d.enclosingHeaders outer = outers := by
      rintro outer outers rfl
      have hlt := (mem_enclosingHeaders (haround ▸ List.mem_cons_self)).2
      exact ⟨by omega, enclosingHeaders_of_cons (by omega) haround⟩
    rw [forwardBlockIn]
    cases hbetween : d.headerBetween? after (d.blockEnd header) with
    | some line =>
      exact .done (by simp [forwardTurn, hbetween])
    | none =>
      dsimp only
      by_cases hahead : offset < d.buffer.lineEnd (d.blockEnd header)
      · rw [if_pos hahead]
        exact .done (by simp [forwardTurn, hbetween, hahead])
      · rw [if_neg hahead]
        refine .next ?_ (ih (d.blockEnd header) hrest)
        simp [forwardTurn, hbetween, hahead, haround]

theorem ends_forwardBlock (d : Document) (offset : Nat) :
    Ends (d.forwardTurn offset) (d.forwardStart offset) (d.forwardBlock offset) := by
  rw [forwardStart, forwardBlock]
  cases hstatement : d.statementAt? offset with
  | none =>
    refine ends_forwardTurn offset _ [] ?_
    intro header rest hlist
    cases hlist
  | some statement =>
    have hle := (statementAt?_mem hstatement).2
    have haround : ∀ header rest, d.enclosingHeaders statement = header :: rest →
        header ≤ d.lineCount ∧ d.enclosingHeaders header = rest := by
      intro header rest hlist
      have hlt := (mem_enclosingHeaders (hlist ▸ List.mem_cons_self)).2
      exact ⟨by omega, enclosingHeaders_of_cons (by omega) hlist⟩
    dsimp only
    by_cases hheader : d.isBlockHeader statement = true
    · rw [blockOf?, if_pos hheader, if_pos hheader]
      refine ends_forwardTurn offset _ (statement :: d.enclosingHeaders statement) ?_
      intro header rest hlist
      obtain ⟨rfl, rfl⟩ := List.cons_eq_cons.1 hlist
      exact ⟨hle, rfl⟩
    · rw [blockOf?, if_neg hheader, if_neg hheader]
      exact ends_forwardTurn offset _ _ haround

/-! ### All of them -/

/-- The loops end, with the answers of the functions that go over lists of statements. -/
structure LoopsEnd (d : Document) : Prop where
  enclosingHeader : ∀ (accept : Nat → Bool) (line : Nat), 1 ≤ line → line ≤ d.lineCount →
    Ends (d.headerTurn accept) (d.buffer.indentation line, line)
      ((d.enclosingHeaders line).find? accept)
  blockEnd : ∀ header, 1 ≤ header → header ≤ d.lineCount →
    Ends (d.blockEndTurn (d.buffer.indentation header))
      (d.statementEnd header, d.statementEnd header + 1) (d.blockEnd header)
  decoratedDefinition : ∀ line, 1 ≤ line → line ≤ d.lineCount →
    Ends (d.decoratedTurn (d.buffer.indentation line)) line (d.decoratedDefinition? line)
  firstDecorator : ∀ header, 1 ≤ header → header ≤ d.lineCount →
    Ends (d.decoratorTurn (d.buffer.indentation header)) header (d.firstDecorator header)
  definitionPath : ∀ offset,
    Ends d.pathTurn ([], d.definitionAt? offset) (d.definitionPath offset)
  headerBetween : ∀ after limit,
    Ends (d.searchTurn limit) (d.nextCodeLine? after) (d.headerBetween? after limit)
  forwardBlock : ∀ offset,
    Ends (d.forwardTurn offset) (d.forwardStart offset) (d.forwardBlock offset)
  backwardBlock : ∀ floor line, 1 ≤ line → line ≤ d.lineCount →
    Ends (d.backwardTurn floor) line
      (((d.statementsAbove line).takeWhile fun l => decide (floor < l)).find? d.isBlockHeader)
  nextDefinition : ∀ line, 1 ≤ line → line ≤ d.lineCount →
    Ends d.definitionTurn line ((d.statementsBelow line).find? d.isDefinition)

theorem loopsEnd (d : Document) : d.LoopsEnd where
  enclosingHeader accept line _ hle := ends_headerTurn accept _ (by omega)
  blockEnd header _ _ := by
    have h := d.ends_blockEndTurn (d.buffer.indentation header) (d.statementEnd header)
      (d.statementEnd header)
    rw [Document.blockEnd]
    cases hlast : ((d.statementsBelow header).takeWhile fun l =>
        decide (d.buffer.indentation header < d.buffer.indentation l)).getLast? with
    | none =>
      rw [statementsBelow] at hlast
      rw [hlast] at h
      exact h
    | some l =>
      rw [statementsBelow] at hlast
      rw [hlast] at h
      exact h
  decoratedDefinition line hone hle := ends_decoratedTurn _ hone hle
  firstDecorator header hone hle := ends_decoratorTurn hone hle (Nat.le_refl _)
  definitionPath offset := by
    rw [Document.definitionPath]
    cases h : d.definitionAt? offset with
    | none => exact .done rfl
    | some header => exact ends_pathTurn [] (definitionAt?_mem h).2
  headerBetween after limit := d.ends_searchTurn limit after
  forwardBlock := d.ends_forwardBlock
  backwardBlock floor line _ hle := ends_backwardTurn floor (by omega)
  nextDefinition line hone hle := ends_definitionTurn hone hle

end Document

end Offside
