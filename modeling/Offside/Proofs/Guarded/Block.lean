import Offside.Motion
import Offside.Proofs.Guarded.Statement

/-!
# Guarded bounds and motions

The spans of statements, blocks and definitions and the motions over them, evaluated with guards: a
span is made of two bounds that have to be in order, and the walk over decorators and the search for
the next block take one from the number of a line.

* `Document.mem_statementsAbove`, `mem_statementsAfter`: neighbouring statements stand on the side that
  they are looked for on;
* `Document.blockEnd_mem`, `firstDecorator_mem`: a block ends below its header, and its decorators
  stand above it;
* `Guarded.statementBounds`, `blockBounds?`, `definitionBounds?`, `definitionPath`;
* `Guarded.move`: the motions.
-/

namespace Offside

namespace Document

variable {d : Document} {line m : Nat}

/-! ### Lines that are found -/

theorem statementStart_mem (d : Document) (line : Nat) :
    1 ≤ d.statementStart line ∧ d.statementStart line ≤ d.lineCount :=
  ⟨d.one_le_statementStart line, d.statementStart_le_lineCount line⟩

/-- The statement before a line starts above it. -/
theorem previousStatement?_lt (h : d.previousStatement? line = some m) : 1 ≤ m ∧ m < line := by
  obtain ⟨p, hp, rfl⟩ := Option.map_eq_some_iff.1 h
  obtain ⟨hone, hlt, -⟩ := previousCodeLine?_eq_some hp
  have hstart : d.statementStart p ≤ d.buffer.clampLine p := d.startFrom_le _
  have hclamp : d.buffer.clampLine p ≤ p := by
    unfold Buffer.clampLine
    omega
  exact ⟨d.one_le_statementStart p, by omega⟩

theorem mem_aboveFrom {n : Nat} (h : m ∈ d.aboveFrom n line) : 1 ≤ m ∧ m < line := by
  induction n generalizing line with
  | zero => cases h
  | succ n ih =>
    rw [aboveFrom] at h
    split at h
    · cases h
    · next start hstart =>
      obtain ⟨hone, hlt⟩ := previousStatement?_lt hstart
      rcases List.mem_cons.1 h with rfl | h
      · exact ⟨hone, hlt⟩
      · obtain ⟨hm, hlt'⟩ := ih h
        exact ⟨hm, Nat.lt_trans hlt' hlt⟩

/-- Statements above a line start above it. -/
theorem mem_statementsAbove (h : m ∈ d.statementsAbove line) : 1 ≤ m ∧ m < line := mem_aboveFrom h

/-- Statements after a line start below it. -/
theorem mem_afterFrom_lt {n : Nat} (h : m ∈ d.afterFrom n line) : line < m ∧ m ≤ d.lineCount := by
  induction n generalizing line with
  | zero => cases h
  | succ n ih =>
    rw [afterFrom] at h
    split at h
    · cases h
    · next start hstart =>
      obtain ⟨hlt, hle, -⟩ := nextCodeLine?_eq_some_iff.1 hstart
      rcases List.mem_cons.1 h with rfl | h
      · exact ⟨hlt, hle⟩
      · obtain ⟨hlt', hle'⟩ := ih h
        have hend := (statementEnd_mem (show 1 ≤ start by omega) hle).1
        exact ⟨by omega, hle'⟩

theorem mem_statementsAfter (h : m ∈ d.statementsAfter line) : line < m ∧ m ≤ d.lineCount :=
  mem_afterFrom_lt h

theorem mem_statementsBelow (hone : 1 ≤ line) (hle : line ≤ d.lineCount)
    (h : m ∈ d.statementsBelow line) : line < m ∧ m ≤ d.lineCount := by
  obtain ⟨hlt, hm⟩ := mem_statementsAfter h
  have hend := (statementEnd_mem hone hle).1
  exact ⟨by omega, hm⟩

theorem mem_headersAround {threshold : Nat} {above : List Nat}
    (h : m ∈ d.headersAround threshold above) : m ∈ above := by
  induction above generalizing threshold with
  | nil => cases h
  | cons l above ih =>
    rw [headersAround] at h
    split at h
    · split at h
      · rcases List.mem_cons.1 h with rfl | h
        · exact List.mem_cons_self
        · exact List.mem_cons_of_mem l (ih h)
      · cases h
    · exact List.mem_cons_of_mem l (ih h)

/-- Headers around a statement start above it. -/
theorem mem_enclosingHeaders (h : m ∈ d.enclosingHeaders line) : 1 ≤ m ∧ m < line :=
  mem_statementsAbove (mem_headersAround h)

/-- A block ends on or below its header. -/
theorem blockEnd_mem (hone : 1 ≤ line) (hle : line ≤ d.lineCount) :
    line ≤ d.blockEnd line ∧ d.blockEnd line ≤ d.lineCount := by
  rw [blockEnd]
  cases hlast : ((d.statementsBelow line).takeWhile fun l =>
      d.buffer.indentation line < d.buffer.indentation l).getLast? with
  | none => exact statementEnd_mem hone hle
  | some l =>
    have hmem := (List.takeWhile_sublist _).subset (List.mem_of_getLast? hlast)
    obtain ⟨hlt, hl⟩ := mem_statementsBelow hone hle hmem
    obtain ⟨hend, hcount⟩ := statementEnd_mem (d := d) (show 1 ≤ l by omega) hl
    exact ⟨by rw [Option.getD_some]; omega, hcount⟩

/-- Decorators stand above what they decorate. -/
theorem decoratorsFrom_mem {column n : Nat} (hone : 1 ≤ line) (hle : line ≤ d.lineCount) :
    1 ≤ d.decoratorsFrom column n line ∧ d.decoratorsFrom column n line ≤ line := by
  induction n generalizing line with
  | zero => exact ⟨hone, Nat.le_refl _⟩
  | succ n ih =>
    rw [decoratorsFrom]
    split
    · exact ⟨hone, Nat.le_refl _⟩
    · next hmore =>
      have hlt : 1 < line := by omega
      have hstart := statementStart_le (d := d) (m := line - 1) (by omega) (by omega)
      obtain ⟨habove, hcount⟩ := d.statementStart_mem (line - 1)
      obtain ⟨hfirst, hfirst'⟩ := ih habove hcount
      exact ⟨hfirst, by omega⟩

theorem firstDecorator_mem (hone : 1 ≤ line) (hle : line ≤ d.lineCount) :
    1 ≤ d.firstDecorator line ∧ d.firstDecorator line ≤ line :=
  decoratorsFrom_mem hone hle

theorem statementAt?_mem {offset : Nat} (h : d.statementAt? offset = some m) :
    1 ≤ m ∧ m ≤ d.lineCount := by
  obtain ⟨l, -, rfl⟩ := Option.map_eq_some_iff.1 h
  exact d.statementStart_mem l

theorem blockOf?_mem {header : Nat} (hone : 1 ≤ m) (hle : m ≤ d.lineCount)
    (h : d.blockOf? m = some header) : 1 ≤ header ∧ header ≤ d.lineCount := by
  rw [blockOf?] at h
  split at h
  · cases h
    exact ⟨hone, hle⟩
  · obtain ⟨hheader, hlt⟩ := mem_enclosingHeaders (List.mem_of_mem_head? h)
    exact ⟨hheader, by omega⟩

theorem mem_of_definitionBelow? {column : Nat} {below : List Nat}
    (h : d.definitionBelow? column below = some m) : m ∈ below := by
  induction below with
  | nil => cases h
  | cons l below ih =>
    rw [definitionBelow?] at h
    split at h
    · cases h
    split at h
    · exact List.mem_cons_of_mem l (ih h)
    split at h
    · cases h
      exact List.mem_cons_self
    · cases h

/-- The definition at an offset is on an existing line. -/
theorem definitionAt?_mem {offset header : Nat} (h : d.definitionAt? offset = some header) :
    1 ≤ header ∧ header ≤ d.lineCount := by
  obtain ⟨statement, hs, h⟩ := Option.bind_eq_some_iff.1 h
  obtain ⟨hone, hle⟩ := statementAt?_mem hs
  dsimp only at h
  split at h
  · next decorated hd =>
    cases h
    split at hd
    · obtain ⟨hlt, hcount⟩ := mem_statementsBelow hone hle (mem_of_definitionBelow? hd)
      exact ⟨by omega, hcount⟩
    · cases hd
  · split at h
    · cases h
      exact ⟨hone, hle⟩
    · obtain ⟨hheader, hlt⟩ := mem_enclosingHeaders (List.mem_of_find?_eq_some h)
      exact ⟨hheader, by omega⟩

end Document

namespace Guarded

/-! ### Blocks -/

/-- The first line of the statement at an offset. -/
def statementAt? (d : Document) (offset : Nat) : Guarded (Option Nat) := do
  mapSome (← codeLineAtOrBefore? d (← lineAt d.buffer offset)) (statementStart d)

/-- Whether a line is the header of a definition. -/
def isDefinition (d : Document) (line : Nat) : Guarded Bool := do
  if (definedName? (← lineText d.buffer line)).isSome then isBlockHeader d line else return false

/-- The headers among statements, listed upwards, that enclose one at column `threshold`. -/
def headersAround (d : Document) : Nat → List Nat → Guarded (List Nat)
  | _, [] => pure []
  | threshold, line :: above => do
    let column ← indentation d.buffer line
    if column < threshold then
      if ← isBlockHeader d line then return line :: (← headersAround d column above)
      else return []
    else headersAround d threshold above

/-- The lines of the headers around the statement at a line, innermost first. -/
def enclosingHeaders (d : Document) (line : Nat) : Guarded (List Nat) := do
  headersAround d (← indentation d.buffer line) (← statementsAbove d line)

/-- The last line of the block headed at a line. -/
def blockEnd (d : Document) (header : Nat) : Guarded Nat := do
  let column ← indentation d.buffer header
  let body ← takeWhile (fun l => return decide (column < (← indentation d.buffer l)))
    (← statementsBelow d header)
  statementEnd d (body.getLast?.getD header)

@[simp] theorem statementAt?_eq (d : Document) (offset : Nat) :
    statementAt? d offset = pure (d.statementAt? offset) := by
  rw [statementAt?, lineAt_eq, pure_bind, codeLineAtOrBefore?_eq, pure_bind,
    funext (statementStart_eq d), mapSome_pure, Document.statementAt?]

@[simp] theorem isDefinition_eq (d : Document) (line : Nat) :
    isDefinition d line = pure (d.isDefinition line) := by
  rw [isDefinition, lineText_eq, pure_bind, isBlockHeader_eq, Document.isDefinition]
  cases (definedName? (d.buffer.lineText line)).isSome <;> rfl

@[simp] theorem headersAround_eq (d : Document) (threshold : Nat) (above : List Nat) :
    headersAround d threshold above = pure (d.headersAround threshold above) := by
  induction above generalizing threshold with
  | nil => rfl
  | cons line above ih =>
    simp only [headersAround, indentation_eq, isBlockHeader_eq, ih, pure_bind, ite_pure,
      Document.headersAround]

@[simp] theorem enclosingHeaders_eq (d : Document) (line : Nat) :
    enclosingHeaders d line = pure (d.enclosingHeaders line) := by
  rw [enclosingHeaders, indentation_eq, pure_bind, statementsAbove_eq, pure_bind, headersAround_eq,
    Document.enclosingHeaders]

@[simp] theorem blockEnd_eq (d : Document) (header : Nat) :
    blockEnd d header = pure (d.blockEnd header) := by
  simp only [blockEnd, indentation_eq, statementsBelow_eq, takeWhile_pure, statementEnd_eq,
    pure_bind, Document.blockEnd]

/-! ### Bounds -/

/-- The span of the statement that holds an offset. -/
def statementBounds (d : Document) (offset : Nat) : Guarded Span := do
  let line ← lineAt d.buffer offset
  span (← indentationEnd d.buffer (← statementStart d line))
    (← lineEnd d.buffer (← statementEnd d line))

/-- The span from line `first` to the end of the block headed at `header`. -/
def blockSpan (d : Document) (first header : Nat) : Guarded Span := do
  span (← indentationEnd d.buffer first) (← lineEnd d.buffer (← blockEnd d header))

/-- The line of the header of the block that a statement belongs to. -/
def blockOf? (d : Document) (statement : Nat) : Guarded (Option Nat) := do
  if ← isBlockHeader d statement then return some statement
  else return (← enclosingHeaders d statement).head?

/-- The span of the block at an offset. -/
def blockBounds? (d : Document) (offset : Nat) : Guarded (Option Span) := do
  onSome (← statementAt? d offset) fun statement => do
    onSome (← blockOf? d statement) fun header => return some (← blockSpan d header header)

/-- The definition below decorators at column `column`. -/
def definitionBelow? (d : Document) (column : Nat) : List Nat → Guarded (Option Nat)
  | [] => pure none
  | line :: below => do
    if (← indentation d.buffer line) ≠ column then return none
    else if isDecorator (← lineText d.buffer line) then definitionBelow? d column below
    else if ← isDefinition d line then return some line
    else return none

/-- The definition that the statement at a line decorates. -/
def decoratedDefinition? (d : Document) (line : Nat) : Guarded (Option Nat) := do
  if isDecorator (← lineText d.buffer line) then
    definitionBelow? d (← indentation d.buffer line) (← statementsBelow d line)
  else return none

/-- The highest of at most `n` decorators that stand at column `column` directly above a line. -/
def decoratorsFrom (d : Document) (column : Nat) : Nat → Nat → Guarded Nat
  | 0, line => pure line
  | n + 1, line => do
    if 1 < line then
      let above ← statementStart d (← minus line 1)
      if (← isBlankOrComment d above) ∨ (← indentation d.buffer above) ≠ column ∨
          !isDecorator (← lineText d.buffer above) then return line
      else decoratorsFrom d column n above
    else return line

/-- The first decorator of the definition at a line, or the line itself. -/
def firstDecorator (d : Document) (header : Nat) : Guarded Nat := do
  decoratorsFrom d (← indentation d.buffer header) header header

/-- The header of the definition at an offset. -/
def definitionAt? (d : Document) (offset : Nat) : Guarded (Option Nat) := do
  onSome (← statementAt? d offset) fun statement => do
    match ← decoratedDefinition? d statement with
    | some header => return some header
    | none =>
      if ← isDefinition d statement then return some statement
      else (← enclosingHeaders d statement).findM? (isDefinition d)

/-- The span of the definition at an offset, with its decorators. -/
def definitionBounds? (d : Document) (offset : Nat) : Guarded (Option Span) := do
  onSome (← definitionAt? d offset) fun header => do
    return some (← blockSpan d (← firstDecorator d header) header)

/-- The name that a line defines. -/
def definedNameAt? (d : Document) (line : Nat) : Guarded (Option Text) := do
  return definedName? (← lineText d.buffer line)

/-- The names of the definitions around an offset, outermost first. -/
def definitionPath (d : Document) (offset : Nat) : Guarded (List Text) := do
  match ← definitionAt? d offset with
  | none => return []
  | some header =>
    let headers := header :: (← filter (isDefinition d) (← enclosingHeaders d header))
    return ((← headers.mapM (definedNameAt? d)).filterMap id).reverse

@[simp] theorem statementBounds_eq (d : Document) (offset : Nat) :
    statementBounds d offset = pure (d.statementBounds offset) := by
  have h := d.isStatement_of_offset offset
  have hle := Buffer.indentationEnd_le_lineEnd (b := d.buffer) h.one_le h.first_le h.le_lineCount
  simp only [statementBounds, lineAt_eq, statementStart_eq, indentationEnd_eq, statementEnd_eq,
    lineEnd_eq, pure_bind, span_of_le hle, Document.statementBounds]

/-- The bounds of a block are in order, because it ends below its header and its decorators. -/
theorem indentationEnd_le_blockEnd {d : Document} {first header : Nat} (hone : 1 ≤ first)
    (hle : first ≤ header) (hheader : header ≤ d.lineCount) :
    d.buffer.indentationEnd first ≤ d.buffer.lineEnd (d.blockEnd header) := by
  obtain ⟨hend, hcount⟩ := Document.blockEnd_mem (d := d) (show 1 ≤ header by omega) hheader
  exact Buffer.indentationEnd_le_lineEnd hone (Nat.le_trans hle hend) hcount

theorem blockSpan_eq {d : Document} {first header : Nat} (hone : 1 ≤ first) (hle : first ≤ header)
    (hheader : header ≤ d.lineCount) :
    blockSpan d first header = pure (d.blockSpan first header) := by
  simp only [blockSpan, indentationEnd_eq, blockEnd_eq, lineEnd_eq, pure_bind,
    span_of_le (indentationEnd_le_blockEnd hone hle hheader), Document.blockSpan]

@[simp] theorem blockOf?_eq (d : Document) (statement : Nat) :
    blockOf? d statement = pure (d.blockOf? statement) := by
  simp only [blockOf?, isBlockHeader_eq, enclosingHeaders_eq, pure_bind, ite_pure, Document.blockOf?]

@[simp] theorem blockBounds?_eq (d : Document) (offset : Nat) :
    blockBounds? d offset = pure (d.blockBounds? offset) := by
  rw [blockBounds?, statementAt?_eq, pure_bind]
  refine onSome_eq fun statement hs => ?_
  obtain ⟨hone, hle⟩ := Document.statementAt?_mem hs
  rw [blockOf?_eq, pure_bind]
  refine onSome_eq fun header hh => ?_
  obtain ⟨hheader, hcount⟩ := Document.blockOf?_mem hone hle hh
  rw [blockSpan_eq hheader (Nat.le_refl _) hcount, pure_bind]
  rfl

@[simp] theorem definitionBelow?_eq (d : Document) (column : Nat) (below : List Nat) :
    definitionBelow? d column below = pure (d.definitionBelow? column below) := by
  induction below with
  | nil => rfl
  | cons line below ih =>
    simp only [definitionBelow?, indentation_eq, lineText_eq, isDefinition_eq, ih, pure_bind,
      ite_pure, Document.definitionBelow?]

@[simp] theorem decoratedDefinition?_eq (d : Document) (line : Nat) :
    decoratedDefinition? d line = pure (if isDecorator (d.buffer.lineText line) then
      d.decoratedDefinition? line else none) := by
  simp only [decoratedDefinition?, lineText_eq, indentation_eq, statementsBelow_eq,
    definitionBelow?_eq, pure_bind, ite_pure, Document.decoratedDefinition?]

@[simp] theorem decoratorsFrom_eq (d : Document) (column n line : Nat) :
    decoratorsFrom d column n line = pure (d.decoratorsFrom column n line) := by
  induction n generalizing line with
  | zero => rfl
  | succ n ih =>
    rw [decoratorsFrom, Document.decoratorsFrom]
    split
    · next h =>
      have hnot : ¬ line ≤ 1 := Nat.not_le.2 h
      simp only [minus_of_le (Nat.le_of_lt h), statementStart_eq, isBlankOrComment_eq, indentation_eq,
        lineText_eq, ih, pure_bind, ite_pure, hnot, false_or]
    · next h => simp only [Nat.not_lt.1 h, true_or, if_true]

@[simp] theorem firstDecorator_eq (d : Document) (header : Nat) :
    firstDecorator d header = pure (d.firstDecorator header) := by
  rw [firstDecorator, indentation_eq, pure_bind, decoratorsFrom_eq, Document.firstDecorator]

@[simp] theorem definitionAt?_eq (d : Document) (offset : Nat) :
    definitionAt? d offset = pure (d.definitionAt? offset) := by
  rw [definitionAt?, statementAt?_eq, pure_bind]
  refine onSome_eq fun statement _ => ?_
  rw [decoratedDefinition?_eq, pure_bind]
  dsimp only
  cases (if isDecorator (d.buffer.lineText statement) then d.decoratedDefinition? statement
      else none) with
  | some header => rfl
  | none =>
    simp only [isDefinition_eq, enclosingHeaders_eq, pure_bind, funext (isDefinition_eq d),
      List.findM?_pure, ite_pure]

@[simp] theorem definitionBounds?_eq (d : Document) (offset : Nat) :
    definitionBounds? d offset = pure (d.definitionBounds? offset) := by
  rw [definitionBounds?, definitionAt?_eq, pure_bind]
  refine onSome_eq fun header hh => ?_
  obtain ⟨hone, hle⟩ := Document.definitionAt?_mem hh
  obtain ⟨hfirst, hfirst'⟩ := Document.firstDecorator_mem hone hle
  rw [firstDecorator_eq, pure_bind, blockSpan_eq hfirst hfirst' hle, pure_bind]
  rfl

@[simp] theorem definedNameAt?_eq (d : Document) (line : Nat) :
    definedNameAt? d line = pure (definedName? (d.buffer.lineText line)) := by
  rw [definedNameAt?, lineText_eq, pure_bind]

@[simp] theorem definitionPath_eq (d : Document) (offset : Nat) :
    definitionPath d offset = pure (d.definitionPath offset) := by
  rw [definitionPath, definitionAt?_eq, pure_bind, Document.definitionPath]
  cases d.definitionAt? offset with
  | none => rfl
  | some header =>
    simp only [enclosingHeaders_eq, funext (isDefinition_eq d), filter_pure, pure_bind,
      funext (definedNameAt?_eq d), List.mapM_pure, List.filterMap_map, Function.id_comp]

/-! ### Motions -/

/-- The first header among the statements after line `after` and not after line `limit`. -/
def headerBetween? (d : Document) (after limit : Nat) : Guarded (Option Nat) := do
  ((← statementsAfter d after).takeWhile (· ≤ limit)).findM? (isBlockHeader d)

/-- The next header after line `after` in the innermost of the given blocks, else the end of that
block if it lies ahead, else the same for the block around it. -/
def forwardBlockIn (d : Document) (offset after : Nat) : List Nat → Guarded (Option Nat)
  | [] => do mapSome (← headerBetween? d after d.lineCount) (indentationEnd d.buffer)
  | header :: around => do
    let limit ← blockEnd d header
    match ← headerBetween? d after limit with
    | some line => return some (← indentationEnd d.buffer line)
    | none =>
      let stop ← lineEnd d.buffer limit
      if offset < stop then return some stop else forwardBlockIn d offset limit around

/-- The next header in the block at an offset, else the end of that block, and so on outwards. -/
def forwardBlock (d : Document) (offset : Nat) : Guarded (Option Nat) := do
  match ← statementAt? d offset with
  | none => forwardBlockIn d offset (← minus (← lineAt d.buffer offset) 1) []
  | some statement =>
    let around ← enclosingHeaders d statement
    forwardBlockIn d offset (← statementEnd d statement)
      (if ← isBlockHeader d statement then statement :: around else around)

/-- The start of the header at an offset, else the previous header in the block around it, else the
header of that block. -/
def backwardBlock (d : Document) (offset : Nat) : Guarded (Option Nat) := do
  onSome (← statementAt? d offset) fun statement => do
    let start ← indentationEnd d.buffer statement
    if start < offset && (← isBlockHeader d statement) then return some start
    else
      let parent := (← enclosingHeaders d statement).head?
      let above := (← statementsAbove d statement).takeWhile fun l => decide (parent.getD 0 < l)
      mapSome ((← above.findM? (isBlockHeader d)).or parent) (indentationEnd d.buffer)

/-- The header of the block around the statement at an offset. -/
def upBlock (d : Document) (offset : Nat) : Guarded (Option Nat) := do
  onSome (← statementAt? d offset) fun statement => do
    mapSome (← enclosingHeaders d statement).head? (indentationEnd d.buffer)

/-- The start of the next statement. -/
def forwardStatement (d : Document) (offset : Nat) : Guarded (Option Nat) := do
  let line ← lineAt d.buffer offset
  if (← isBlankOrComment d line) && (← statementStart d line) == line then
    mapSome (← nextCodeLine? d line) (indentationEnd d.buffer)
  else mapSome (← nextStatement? d line) (indentationEnd d.buffer)

/-- The start of the statement at an offset, or of the one before it if the offset is there
already. -/
def backwardStatement (d : Document) (offset : Nat) : Guarded (Option Nat) := do
  onSome (← statementAt? d offset) fun statement => do
    let start ← indentationEnd d.buffer statement
    if start < offset then return some start
    else mapSome (← previousStatement? d statement) (indentationEnd d.buffer)

/-- The start of the definition at an offset, or of the one before it if the offset is there
already. -/
def beginningOfDefinition (d : Document) (offset : Nat) : Guarded (Option Nat) := do
  onSome (← definitionBounds? d offset) fun bounds => do
    if bounds.start < offset then return some bounds.start
    else
      match ← lineStart d.buffer (d.buffer.lineOfOffset bounds.start) with
      | 0 => return none
      | before + 1 =>
        onSome (← definitionBounds? d before) fun previous => do
          return if previous.start < bounds.start then some previous.start else none

/-- The end of the definition at an offset, or of the next one if the offset is there already. -/
def endOfDefinition (d : Document) (offset : Nat) : Guarded (Option Nat) := do
  match (← definitionBounds? d offset).filter fun b => decide (offset < b.stop) with
  | some bounds => return some bounds.stop
  | none =>
    let below ← statementsBelow d (← lineAt d.buffer offset)
    mapSome (← below.findM? (isDefinition d)) fun l => do
      lineEnd d.buffer (← blockEnd d l)

/-- Where a motion leads from an offset. -/
def move (d : Document) (offset : Nat) : Motion → Guarded (Option Nat)
  | .forwardBlock => forwardBlock d offset
  | .backwardBlock => backwardBlock d offset
  | .upBlock => upBlock d offset
  | .forwardStatement => forwardStatement d offset
  | .backwardStatement => backwardStatement d offset
  | .beginningOfDefinition => beginningOfDefinition d offset
  | .endOfDefinition => endOfDefinition d offset

@[simp] theorem mapSome_indentationEnd (b : Buffer) (found : Option Nat) :
    mapSome found (indentationEnd b) = pure (found.map b.indentationEnd) := by
  rw [funext (indentationEnd_eq b), mapSome_pure]

@[simp] theorem findM?_isBlockHeader (d : Document) (lines : List Nat) :
    lines.findM? (isBlockHeader d) = pure (lines.find? d.isBlockHeader) := by
  rw [funext (isBlockHeader_eq d), List.findM?_pure]

@[simp] theorem headerBetween?_eq (d : Document) (after limit : Nat) :
    headerBetween? d after limit = pure (d.headerBetween? after limit) := by
  rw [headerBetween?, statementsAfter_eq, pure_bind, findM?_isBlockHeader, Document.headerBetween?]

@[simp] theorem forwardBlockIn_eq (d : Document) (offset after : Nat) (headers : List Nat) :
    forwardBlockIn d offset after headers = pure (d.forwardBlockIn offset after headers) := by
  induction headers generalizing after with
  | nil =>
    rw [forwardBlockIn, headerBetween?_eq, pure_bind, mapSome_indentationEnd,
      Document.forwardBlockIn]
  | cons header around ih =>
    rw [forwardBlockIn, blockEnd_eq, pure_bind, headerBetween?_eq, pure_bind,
      Document.forwardBlockIn]
    cases d.headerBetween? after (d.blockEnd header) with
    | some line => simp only [indentationEnd_eq, pure_bind]
    | none => simp only [lineEnd_eq, pure_bind, ih, ite_pure]

@[simp] theorem forwardBlock_eq (d : Document) (offset : Nat) :
    forwardBlock d offset = pure (d.forwardBlock offset) := by
  rw [forwardBlock, statementAt?_eq, pure_bind, Document.forwardBlock]
  cases d.statementAt? offset with
  | none =>
    -- every offset lies on a line, and there is a line number before it
    have hone := (d.buffer.lineOfOffset_mem offset).1
    simp only [lineAt_eq, pure_bind, minus_of_le hone, forwardBlockIn_eq]
  | some statement =>
    simp only [enclosingHeaders_eq, statementEnd_eq, isBlockHeader_eq, pure_bind, forwardBlockIn_eq]

@[simp] theorem backwardBlock_eq (d : Document) (offset : Nat) :
    backwardBlock d offset = pure (d.backwardBlock offset) := by
  simp only [backwardBlock, statementAt?_eq, indentationEnd_eq, isBlockHeader_eq,
    enclosingHeaders_eq, statementsAbove_eq, findM?_isBlockHeader, mapSome_indentationEnd, pure_bind,
    ite_pure, onSome_pure]
  rfl

@[simp] theorem upBlock_eq (d : Document) (offset : Nat) :
    upBlock d offset = pure (d.upBlock offset) := by
  simp only [upBlock, statementAt?_eq, enclosingHeaders_eq, mapSome_indentationEnd, pure_bind,
    onSome_pure]
  rfl

@[simp] theorem forwardStatement_eq (d : Document) (offset : Nat) :
    forwardStatement d offset = pure (d.forwardStatement offset) := by
  simp only [forwardStatement, lineAt_eq, isBlankOrComment_eq, statementStart_eq, nextCodeLine?_eq,
    nextStatement?_eq, mapSome_indentationEnd, pure_bind, ite_pure, Document.forwardStatement]
  split <;> rfl

@[simp] theorem backwardStatement_eq (d : Document) (offset : Nat) :
    backwardStatement d offset = pure (d.backwardStatement offset) := by
  simp only [backwardStatement, statementAt?_eq, indentationEnd_eq, previousStatement?_eq,
    mapSome_indentationEnd, pure_bind, ite_pure, onSome_pure]
  rfl

@[simp] theorem beginningOfDefinition_eq (d : Document) (offset : Nat) :
    beginningOfDefinition d offset = pure (d.beginningOfDefinition offset) := by
  rw [beginningOfDefinition, definitionBounds?_eq, pure_bind]
  refine onSome_eq fun bounds _ => ?_
  split
  · rfl
  · rw [lineStart_eq, pure_bind]
    cases d.buffer.lineStart (d.buffer.lineOfOffset bounds.start) with
    | zero => rfl
    | succ before =>
      simp only [definitionBounds?_eq, pure_bind, onSome_pure]
      rfl

@[simp] theorem endOfDefinition_eq (d : Document) (offset : Nat) :
    endOfDefinition d offset = pure (d.endOfDefinition offset) := by
  rw [endOfDefinition, definitionBounds?_eq, pure_bind, Document.endOfDefinition]
  cases (d.definitionBounds? offset).filter fun b => decide (offset < b.stop) with
  | some bounds => rfl
  | none =>
    simp only [lineAt_eq, statementsBelow_eq, funext (isDefinition_eq d), List.findM?_pure,
      blockEnd_eq, lineEnd_eq, pure_bind, mapSome_pure]

@[simp] theorem move_eq (d : Document) (offset : Nat) (m : Motion) :
    move d offset m = pure (d.move offset m) := by
  cases m with
  | forwardBlock => exact forwardBlock_eq d offset
  | backwardBlock => exact backwardBlock_eq d offset
  | upBlock => exact upBlock_eq d offset
  | forwardStatement => exact forwardStatement_eq d offset
  | backwardStatement => exact backwardStatement_eq d offset
  | beginningOfDefinition => exact beginningOfDefinition_eq d offset
  | endOfDefinition => exact endOfDefinition_eq d offset

end Guarded

end Offside
