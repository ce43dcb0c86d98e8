import Offside.Block
import Offside.Proofs.Guarded.Scan

/-!
# Guarded walks over lines and statements

Which lines belong together and which of them begin a block, evaluated with guards: the walks look at
the line above and at the last byte of a line by taking one from a number, and at what follows a soft
keyword by a slice.

* `Guarded.endsBackslash`, `continuation`, `startFrom`, `statementStart`, `statementEnd`: statements;
* `Guarded.isBlankOrComment`, `previousCodeLine?`, `nextCodeLine?`: lines with code;
* `Guarded.statementsAbove`, `statementsAfter`, `statementsBelow`: neighbouring statements;
* `Guarded.blockKeywordEnd?`, `endsWithColon`, `isBlockHeader`, `status`: headers of blocks.
-/

namespace Offside.Guarded

open Lexical

/-! ### Lines that continue -/

/-- Whether a line ends in an odd number of backslashes that stand in code. -/
def endsBackslash (d : Document) (line : Nat) : Guarded Bool := do
  if d.buffer.hasLine line then
    let run := ((← lineText d.buffer line).reverse.takeWhile (· == '\\')).length
    if run % 2 = 1 then
      let last ← minus (← lineEnd d.buffer line) 1
      return (← stateAt d last).isCode
    else return false
  else return false

/-- Why a line continues onto the next one. -/
def continuation (d : Document) (line : Nat) : Guarded (Option Continuation) := do
  if d.buffer.hasLine line then
    let after ← stateAt d (← nextLineStart d.buffer line)
    if 0 < after.depth then return some .paren
    else if after.inString then return some .string
    else if ← endsBackslash d line then return some .backslash
    else return none
  else return none

/-- Whether a line continues onto the next one. -/
def continues (d : Document) (line : Nat) : Guarded Bool := do
  return (← continuation d line).isSome

/-- The first of at most `n + 1` lines that continue into `line`. -/
def startFrom (d : Document) : Nat → Nat → Guarded Nat
  | 0, line => pure line
  | n + 1, line => do
    if 1 < line then
      let above ← minus line 1
      if ← continues d above then startFrom d n above else return line
    else return line

/-- The first line of the statement that holds a line. -/
def statementStart (d : Document) (line : Nat) : Guarded Nat :=
  startFrom d (d.buffer.clampLine line) (d.buffer.clampLine line)

/-- The last of at most `n` lines after `line` onto which it continues. -/
def endFrom (d : Document) : Nat → Nat → Guarded Nat
  | 0, line => pure line
  | n + 1, line => do if ← continues d line then endFrom d n (line + 1) else return line

/-- The last line of the statement that holds a line. -/
def statementEnd (d : Document) (line : Nat) : Guarded Nat :=
  let line := d.buffer.clampLine line
  endFrom d (d.lineCount - line) line

@[simp] theorem endsBackslash_eq (d : Document) (line : Nat) :
    endsBackslash d line = pure (d.endsBackslash line) := by
  simp only [endsBackslash, Document.endsBackslash, lineText_eq, lineEnd_eq, pure_bind, stateAt_eq]
  cases d.buffer.hasLine line with
  | false => rfl
  | true =>
    by_cases hodd :
        ((d.buffer.lineText line).reverse.takeWhile (· == '\\')).length % 2 = 1
    · -- the line ends in a backslash, so it does not end at offset zero
      obtain ⟨u, hu⟩ := Text.exists_backslash hodd
      have hend : 1 ≤ d.buffer.lineEnd line := by
        obtain ⟨p, x, -, -, hend⟩ := d.buffer.exists_text_around_body line
        rw [hend, hu, Text.size_append, show Text.size ['\\'] = 1 from rfl]
        omega
      simp [hodd, minus_of_le hend]
    · simp [hodd, beq_eq_false_iff_ne.2 hodd]

@[simp] theorem continuation_eq (d : Document) (line : Nat) :
    continuation d line = pure (d.continuation line) := by
  simp only [continuation, Document.continuation, nextLineStart_eq, stateAt_eq, endsBackslash_eq,
    pure_bind, ite_pure]

@[simp] theorem continues_eq (d : Document) (line : Nat) :
    continues d line = pure (d.continues line) := by
  rw [continues, continuation_eq, pure_bind, Document.continues]

theorem startFrom_eq (d : Document) {n line : Nat} (h : line ≤ n + 1) :
    startFrom d n line = pure (d.startFrom line) := by
  induction n generalizing line with
  | zero =>
    match line, h with
    | 0, _ => rfl
    | 1, _ => rfl
  | succ n ih =>
    match line, h with
    | 0, _ => rfl
    | 1, _ => rfl
    | k + 2, h =>
      rw [startFrom, if_pos (by omega), minus_succ_one, pure_bind, continues_eq, pure_bind,
        ih (by omega), ite_pure, Document.startFrom]

@[simp] theorem statementStart_eq (d : Document) (line : Nat) :
    statementStart d line = pure (d.statementStart line) :=
  startFrom_eq d (Nat.le_succ _)

@[simp] theorem endFrom_eq (d : Document) (n line : Nat) :
    endFrom d n line = pure (d.endFrom n line) := by
  induction n generalizing line with
  | zero => rfl
  | succ n ih => simp only [endFrom, Document.endFrom, continues_eq, pure_bind, ih, ite_pure]

@[simp] theorem statementEnd_eq (d : Document) (line : Nat) :
    statementEnd d line = pure (d.statementEnd line) :=
  endFrom_eq d _ _

/-! ### Lines with code -/

/-- Whether a line is blank or holds only a comment. -/
def isBlankOrComment (d : Document) (line : Nat) : Guarded Bool := do
  let empty :=
    match (← lineText d.buffer line).trimStart with
    | [] => true
    | c :: _ => c == '#'
  return empty && !(← lineStartState d line).inString

/-- The nearest line above with code on it. -/
def previousCodeLine? (d : Document) : Nat → Guarded (Option Nat)
  | 0 => pure none
  | 1 => pure none
  | n + 2 => do
    if ← isBlankOrComment d (n + 1) then previousCodeLine? d (n + 1) else return some (n + 1)

/-- The nearest line below with code on it. -/
def nextCodeLine? (d : Document) (line : Nat) : Guarded (Option Nat) :=
  (List.range' (line + 1) (d.lineCount - line)).findM? fun l => return !(← isBlankOrComment d l)

/-- The line itself if there is code on it, else the nearest one above. -/
def codeLineAtOrBefore? (d : Document) (line : Nat) : Guarded (Option Nat) := do
  if ← isBlankOrComment d line then previousCodeLine? d line else return some line

@[simp] theorem isBlankOrComment_eq (d : Document) (line : Nat) :
    isBlankOrComment d line = pure (d.isBlankOrComment line) := by
  rw [isBlankOrComment, lineText_eq, pure_bind, lineStartState_eq, pure_bind]
  rfl

@[simp] theorem previousCodeLine?_eq (d : Document) (line : Nat) :
    previousCodeLine? d line = pure (d.previousCodeLine? line) := by
  fun_induction Document.previousCodeLine? d line with
  | case1 => rfl
  | case2 => rfl
  | case3 n hblank ih => simp [previousCodeLine?, hblank, ih]
  | case4 n hcode => simp [previousCodeLine?, hcode]

@[simp] theorem nextCodeLine?_eq (d : Document) (line : Nat) :
    nextCodeLine? d line = pure (d.nextCodeLine? line) := by
  simp only [nextCodeLine?, isBlankOrComment_eq, pure_bind, List.findM?_pure,
    Document.nextCodeLine?]

@[simp] theorem codeLineAtOrBefore?_eq (d : Document) (line : Nat) :
    codeLineAtOrBefore? d line = pure (d.codeLineAtOrBefore? line) := by
  simp only [codeLineAtOrBefore?, isBlankOrComment_eq, previousCodeLine?_eq, pure_bind, ite_pure,
    Document.codeLineAtOrBefore?]

/-! ### Neighbouring statements -/

/-- The first line of the statement before the one that starts at `line`. -/
def previousStatement? (d : Document) (line : Nat) : Guarded (Option Nat) := do
  mapSome (← previousCodeLine? d line) (statementStart d)

/-- The first line of the statement after the one that holds `line`. -/
def nextStatement? (d : Document) (line : Nat) : Guarded (Option Nat) := do
  nextCodeLine? d (← statementEnd d line)

/-- The first lines of at most `n` statements above `line`, nearest first. -/
def aboveFrom (d : Document) : Nat → Nat → Guarded (List Nat)
  | 0, _ => pure []
  | n + 1, line => do
    match ← previousStatement? d line with
    | none => return []
    | some start => return start :: (← aboveFrom d n start)

/-- The first lines of the statements above `line`, nearest first. -/
def statementsAbove (d : Document) (line : Nat) : Guarded (List Nat) :=
  aboveFrom d (min line d.lineCount) line

/-- The first lines of at most `n` statements after `line`, nearest first. -/
def afterFrom (d : Document) : Nat → Nat → Guarded (List Nat)
  | 0, _ => pure []
  | n + 1, line => do
    match ← nextCodeLine? d line with
    | none => return []
    | some start => return start :: (← afterFrom d n (← statementEnd d start))

/-- The first lines of the statements after `line`, nearest first. -/
def statementsAfter (d : Document) (line : Nat) : Guarded (List Nat) :=
  afterFrom d (d.lineCount - line) line

/-- The first lines of the statements below the one that holds `line`, nearest first. -/
def statementsBelow (d : Document) (line : Nat) : Guarded (List Nat) := do
  statementsAfter d (← statementEnd d line)

@[simp] theorem previousStatement?_eq (d : Document) (line : Nat) :
    previousStatement? d line = pure (d.previousStatement? line) := by
  rw [previousStatement?, previousCodeLine?_eq, pure_bind, funext (statementStart_eq d),
    mapSome_pure, Document.previousStatement?]

@[simp] theorem nextStatement?_eq (d : Document) (line : Nat) :
    nextStatement? d line = pure (d.nextStatement? line) := by
  rw [nextStatement?, statementEnd_eq, pure_bind, nextCodeLine?_eq, Document.nextStatement?]

@[simp] theorem aboveFrom_eq (d : Document) (n line : Nat) :
    aboveFrom d n line = pure (d.aboveFrom n line) := by
  induction n generalizing line with
  | zero => rfl
  | succ n ih =>
    rw [aboveFrom, previousStatement?_eq, pure_bind, Document.aboveFrom]
    cases d.previousStatement? line with
    | none => rfl
    | some start => simp [ih]

@[simp] theorem statementsAbove_eq (d : Document) (line : Nat) :
    statementsAbove d line = pure (d.statementsAbove line) :=
  aboveFrom_eq d _ _

@[simp] theorem afterFrom_eq (d : Document) (n line : Nat) :
    afterFrom d n line = pure (d.afterFrom n line) := by
  induction n generalizing line with
  | zero => rfl
  | succ n ih =>
    rw [afterFrom, nextCodeLine?_eq, pure_bind, Document.afterFrom]
    cases d.nextCodeLine? line with
    | none => rfl
    | some start => simp [ih]

@[simp] theorem statementsAfter_eq (d : Document) (line : Nat) :
    statementsAfter d line = pure (d.statementsAfter line) :=
  afterFrom_eq d _ _

@[simp] theorem statementsBelow_eq (d : Document) (line : Nat) :
    statementsBelow d line = pure (d.statementsBelow line) := by
  rw [statementsBelow, statementEnd_eq, pure_bind, statementsAfter_eq, Document.statementsBelow]

/-! ### Headers -/

/-- The block keyword that a line starts with, and the offset in the line just past the keyword and
the gap after it. -/
def blockKeywordEnd? (line : Text) : Guarded (Option (BlockKeyword × Nat)) := do
  let head := line.afterIndentation.afterAsync
  let stop := line.size - head.afterWord.afterGap.size
  match BlockKeyword.ofWord? head.word with
  | some k =>
    if k.isSoft then return if isSubject (← sliceFrom line stop) then some (k, stop) else none
    else return some (k, stop)
  | none => return none

/-- The block keyword that a line starts with. -/
def blockKeyword? (line : Text) : Guarded (Option BlockKeyword) := do
  return (← blockKeywordEnd? line).map (·.1)

/-- Whether the last code character of the lines from `start` to `stop` is a colon outside
brackets. -/
def endsWithColon (d : Document) (start stop : Nat) : Guarded Bool := do
  let chars := (← codeCharsOfLines d start (← lineEnd d.buffer stop)).filter fun c =>
    !isWhiteSpace c.char && c.char != '\\'
  return chars.getLast?.any fun c => c.char == ':' && c.depth == 0

/-- Whether the statement that holds a line is the header of a block. -/
def isBlockHeader (d : Document) (line : Nat) : Guarded Bool := do
  let start ← statementStart d line
  if (← blockKeyword? (← lineText d.buffer start)).isSome then
    endsWithColon d start (← statementEnd d start)
  else return false

/-- The status of a line with code above it that is no continuation. -/
def statusAfter (d : Document) (previous : Nat) : Guarded Status := do
  let start ← statementStart d previous
  let anchor ← indentationEnd d.buffer start
  return if ← isBlockHeader d start then .afterBlockStart anchor else .afterLine anchor

/-- The status of a line. -/
def status (d : Document) (line : Nat) : Guarded Status := do
  let line := d.buffer.clampLine line
  if line = 1 then return .noIndent
  else
    let state ← lineStartState d line
    match state.innermostParen?, state.string? with
    | some bracket, _ => return .insideParen bracket
    | none, some s => return .insideString s.start
    | none, none =>
      let above ← minus line 1
      if ← endsBackslash d above then return .afterBackslash (← lineStart d.buffer above)
      else
        match ← previousCodeLine? d line with
        | none => return .noIndent
        | some previous => statusAfter d previous

theorem isSuffix_afterAsync (t : Text) : t.afterAsync <:+ t := by
  rw [Text.afterAsync]
  split
  · exact (List.dropWhile_suffix _).trans (List.dropWhile_suffix _)
  · exact List.suffix_rfl

/-- What follows a keyword and the gap after it is the end of its line. -/
theorem isSuffix_afterKeyword (line : Text) :
    line.afterIndentation.afterAsync.afterWord.afterGap <:+ line :=
  ((List.dropWhile_suffix _).trans (List.dropWhile_suffix _)).trans
    ((isSuffix_afterAsync _).trans (List.dropWhile_suffix _))

@[simp] theorem blockKeywordEnd?_eq (line : Text) :
    blockKeywordEnd? line = pure (Offside.blockKeywordEnd? line) := by
  simp only [blockKeywordEnd?, Offside.blockKeywordEnd?,
    sliceFrom_of_isSuffix (isSuffix_afterKeyword line), pure_bind]
  cases BlockKeyword.ofWord? line.afterIndentation.afterAsync.word with
  | none => rfl
  | some k =>
    cases hsoft : k.isSoft with
    | false => simp [hsoft]
    | true => cases isSubject line.afterIndentation.afterAsync.afterWord.afterGap <;> simp [hsoft]

@[simp] theorem blockKeyword?_eq (line : Text) :
    blockKeyword? line = pure (Offside.blockKeyword? line) := by
  rw [blockKeyword?, blockKeywordEnd?_eq, pure_bind, Offside.blockKeyword?]

@[simp] theorem endsWithColon_eq (d : Document) (start stop : Nat) :
    endsWithColon d start stop = pure (d.endsWithColon start stop) := by
  rw [endsWithColon, lineEnd_eq, pure_bind, codeCharsOfLines_eq, pure_bind, Document.endsWithColon]

@[simp] theorem isBlockHeader_eq (d : Document) (line : Nat) :
    isBlockHeader d line = pure (d.isBlockHeader line) := by
  simp only [isBlockHeader, statementStart_eq, lineText_eq, blockKeyword?_eq, statementEnd_eq,
    endsWithColon_eq, pure_bind, Document.isBlockHeader]
  cases (Offside.blockKeyword? (d.buffer.lineText (d.statementStart line))).isSome <;> rfl

@[simp] theorem statusAfter_eq (d : Document) (previous : Nat) :
    statusAfter d previous = pure (d.statusAfter previous) := by
  simp only [statusAfter, statementStart_eq, indentationEnd_eq, isBlockHeader_eq, pure_bind,
    Document.statusAfter]

@[simp] theorem status_eq (d : Document) (line : Nat) : status d line = pure (d.status line) := by
  have hone := (d.buffer.clampLine_mem line).1
  simp only [status, Document.status, lineStartState_eq, minus_of_le hone, endsBackslash_eq,
    lineStart_eq, previousCodeLine?_eq, pure_bind]
  split
  · rfl
  · cases (d.lineStartState (d.buffer.clampLine line)).innermostParen? with
    | some bracket => rfl
    | none =>
      cases (d.lineStartState (d.buffer.clampLine line)).string? with
      | some s => rfl
      | none =>
        cases d.previousCodeLine? (d.buffer.clampLine line) with
        | none => simp only [ite_pure]
        | some previous => simp only [statusAfter_eq, ite_pure]

end Offside.Guarded
