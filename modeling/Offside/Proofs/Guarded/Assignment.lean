import Offside.Indentation
import Offside.Proofs.Guarded.Statement
import Offside.Proofs.Lexical.Positions

/-!
# Guarded search for assignments

The search for the first assignment operator of a line, evaluated with guards: the code characters are
read by their index, a run of operator characters is cut out of them and tokenized from one position
to the next, and what follows the operator is sliced from the text.

* `standsAt_of_mem_operatorRuns`, `operatorRuns_cons`: runs of adjacent operator characters, in order;
* `Guarded.runEnd`, `operatorRuns`: the same runs, by index;
* `Guarded.assignmentTokenEnd?`: the operators of a run, by position;
* `Guarded.assignmentEnd?`, `assignmentContinuation?`, `blockContinuation?`.
-/

namespace Offside

open Lexical
open Text (size)

/-! ### Runs of operator characters -/

/-- Whether a code character belongs to a run of operator characters outside brackets. -/
abbrev IsOperator (c : CodeChar) : Prop := c.depth = 0 ∧ isOperatorChar c.char = true

theorem isOperatorChar_of_mem_operatorRuns {chars : List CodeChar} :
    ∀ run ∈ operatorRuns chars, ∀ c ∈ run.2, isOperatorChar c = true :=
  operatorRuns_induction (P := fun _ run => ∀ c ∈ run, isOperatorChar c = true)
    (fun _ _ hop => List.forall_mem_singleton.2 hop)
    fun _ _ hop _ hrun => List.forall_mem_cons.2 ⟨hop, hrun⟩

/-- A run stands in the text in which its characters stand. -/
theorem standsAt_of_mem_operatorRuns {chars : List CodeChar} {t : Text} {base : Nat}
    (h : ∀ c ∈ chars, t.StandsAt base c.offset [c.char]) :
    ∀ run ∈ operatorRuns chars, t.StandsAt base run.1 run.2 :=
  operatorRuns_induction (P := t.StandsAt base) (fun c hc _ => h c hc)
    fun c hc _ _ hrun => (h c hc).append (by simpa using hrun)

theorem exists_offset_of_mem_operatorRuns {chars : List CodeChar} :
    ∀ run ∈ operatorRuns chars, ∃ c ∈ chars, run.1 = c.offset :=
  operatorRuns_induction (P := fun start _ => ∃ c ∈ chars, start = c.offset)
    (fun c hc _ => ⟨c, hc, rfl⟩) fun c hc _ _ _ => ⟨c, hc, rfl⟩

/-- The characters after `before` that continue its run. -/
def runAfter (before : CodeChar) : List CodeChar → List CodeChar
  | [] => []
  | c :: cs =>
    if IsOperator c ∧ c.offset = before.offset + before.char.utf8Size then c :: runAfter c cs else []

theorem isPrefix_runAfter (before : CodeChar) (cs : List CodeChar) : runAfter before cs <+: cs := by
  induction cs generalizing before with
  | nil => exact List.prefix_rfl
  | cons c cs ih =>
    rw [runAfter]
    split
    · exact (List.prefix_cons_inj c).2 (ih c)
    · exact List.nil_prefix

/-- Whether each character ends before the next one stands. -/
abbrev InSequence (chars : List CodeChar) : Prop :=
  chars.Pairwise fun k l => k.offset + k.char.utf8Size ≤ l.offset

/-- The first run, read from its first character on. -/
theorem operatorRuns_cons {c : CodeChar} {cs : List CodeChar} (hop : IsOperator c)
    (hseq : InSequence (c :: cs)) :
    operatorRuns (c :: cs) = (c.offset, c.char :: (runAfter c cs).map (·.char)) ::
      operatorRuns (cs.drop (runAfter c cs).length) := by
  induction cs generalizing c with
  | nil => simp [operatorRuns, runAfter, hop]
  | cons e es ih =>
    obtain ⟨hc, htail⟩ := List.pairwise_cons.1 hseq
    rw [operatorRuns, if_pos hop, runAfter]
    by_cases he : IsOperator e
    · rw [ih he htail]
      by_cases hadjacent : e.offset = c.offset + c.char.utf8Size
      · simp only [if_pos hadjacent, if_pos (And.intro he hadjacent), List.map_cons,
          List.length_cons, List.drop_succ_cons]
      · simp only [if_neg hadjacent, if_neg fun h : IsOperator e ∧ _ => hadjacent h.2, List.map_nil,
          List.length_nil, List.drop_zero, ih he htail]
    · -- no run begins directly after `c`, because `e` stands in between
      have hskip : operatorRuns (e :: es) = operatorRuns es := by rw [operatorRuns, if_neg he]
      rw [if_neg fun h => he h.1, List.length_nil, List.drop_zero, hskip]
      cases hruns : operatorRuns es with
      | nil => rfl
      | cons run rest =>
        obtain ⟨k, hk, hstart⟩ := exists_offset_of_mem_operatorRuns run
          (hruns.symm ▸ List.mem_cons_self)
        have hce := hc e List.mem_cons_self
        have hek := (List.pairwise_cons.1 htail).1 k hk
        have hpos := e.char.utf8Size_pos
        exact if_neg (by omega)

namespace Guarded

/-- The index after a run of operator characters that reaches up to index `j`, looked for in at most
`n` further characters. -/
def runEnd (chars : Array CodeChar) : Nat → Nat → Guarded Nat
  | 0, j => pure j
  | n + 1, j => do
    if j < chars.size then
      let c ← item chars j
      let before ← item chars (← minus j 1)
      if IsOperator c ∧ c.offset = before.offset + before.char.utf8Size then
        runEnd chars n (j + 1)
      else return j
    else return j

/-- The runs of operator characters in at most `n` steps from index `i` on. -/
def operatorRuns (chars : Array CodeChar) : Nat → Nat → Guarded (List (Nat × Text))
  | 0, _ => pure []
  | n + 1, i => do
    if i < chars.size then
      let c ← item chars i
      if IsOperator c then
        let j ← runEnd chars chars.size (i + 1)
        let run ← items chars i j
        return (c.offset, run.map (·.char)) :: (← operatorRuns chars n j)
      else operatorRuns chars n (i + 1)
    else return []

theorem item_append (p : List CodeChar) (c : CodeChar) (cs : List CodeChar) :
    item (p ++ c :: cs).toArray p.length = pure c :=
  item_of_getElem? (by simp)

theorem runEnd_append {n : Nat} (p : List CodeChar) (k : CodeChar) (cs : List CodeChar)
    (hn : cs.length ≤ n) :
    runEnd (p ++ k :: cs).toArray n (p.length + 1) =
      pure (p.length + 1 + (runAfter k cs).length) := by
  induction n generalizing p k cs with
  | zero =>
    obtain rfl := List.length_eq_zero_iff.1 (Nat.le_zero.1 hn)
    rfl
  | succ n ih =>
    cases cs with
    | nil => simp [runEnd, runAfter]
    | cons c cs =>
      have hnext := ih (p ++ [k]) c cs (by simpa using hn)
      have hc := item_append (p ++ [k]) c cs
      rw [List.append_assoc, List.length_append, List.length_singleton,
        List.singleton_append] at hnext hc
      rw [runEnd, if_pos (by simp), hc, pure_bind, minus_succ_one, pure_bind, item_append, pure_bind,
        hnext, runAfter]
      split
      · rw [List.length_cons]
        congr 1
        omega
      · rfl

theorem operatorRuns_append {n : Nat} (p cs : List CodeChar)
    (hseq : InSequence cs) (hn : cs.length ≤ n) :
    operatorRuns (p ++ cs).toArray n p.length = pure (Offside.operatorRuns cs) := by
  induction n generalizing p cs with
  | zero =>
    obtain rfl := List.length_eq_zero_iff.1 (Nat.le_zero.1 hn)
    rfl
  | succ n ih =>
    cases cs with
    | nil => simp [operatorRuns, Offside.operatorRuns]
    | cons c cs =>
      have hlength : cs.length ≤ n := by simpa using hn
      rw [operatorRuns, if_pos (by simp), item_append, pure_bind]
      split
      · next hop =>
        -- the run takes its characters away, and the search goes on behind them
        have hjoin := List.prefix_iff_eq_append.1 (isPrefix_runAfter c cs)
        have htext : p ++ c :: cs =
            p ++ (c :: runAfter c cs ++ cs.drop (runAfter c cs).length) := by
          rw [List.cons_append, hjoin]
        have hitems := items_append p (c :: runAfter c cs) (cs.drop (runAfter c cs).length)
        have hnext := ih (p ++ c :: runAfter c cs) (cs.drop (runAfter c cs).length)
          ((List.pairwise_cons.1 hseq).2.sublist (List.drop_sublist _ _))
          (by rw [List.length_drop]; omega)
        rw [← htext, List.length_cons] at hitems
        rw [List.append_assoc, ← htext, List.length_append, List.length_cons] at hnext
        rw [runEnd_append p c cs (by simp; omega), pure_bind, Nat.add_right_comm, Nat.add_assoc, hitems,
          pure_bind, hnext, pure_bind, operatorRuns_cons hop hseq, List.map_cons]
      · next hop =>
        have hnext := ih (p ++ [c]) cs (List.pairwise_cons.1 hseq).2 hlength
        rw [List.append_assoc, List.singleton_append, List.length_append,
          List.length_singleton] at hnext
        rw [hnext, Offside.operatorRuns, if_neg hop]

/-! ### Operators -/

/-- The operator at a position of a run. -/
def operatorAt (run : Text) (position : Nat) : Guarded Text := do
  let rest ← sliceFrom run position
  match operators.find? fun o => o.toList.isPrefixOf rest with
  | some o => return o.toList
  | none => slice run position (position + 1)

/-- The end of the first assignment operator among at most `n` operators of a run, from a position of
it on; the run stands at offset `start`. -/
def assignmentTokenEnd? (start : Nat) (run : Text) : Nat → Nat → Guarded (Option Nat)
  | 0, _ => pure none
  | n + 1, position => do
    if position < run.size then
      let token ← operatorAt run position
      if assignmentOperators.any (·.toList == token) then
        return some (start + position + token.size)
      else assignmentTokenEnd? start run n (position + token.size)
    else return none

/-- The end of the first assignment operator outside brackets. -/
def assignmentEnd? (chars : List CodeChar) : Guarded (Option Nat) := do
  (← operatorRuns chars.toArray chars.length 0).findSomeM? fun run =>
    assignmentTokenEnd? run.1 run.2 run.2.length 0

end Guarded

/-- Operator characters take one byte each. -/
theorem size_of_isOperatorChar {t : Text} (h : ∀ c ∈ t, isOperatorChar c = true) :
    size t = t.length :=
  Text.size_eq_length fun c hc => utf8Size_of_isOperatorChar (h c hc)

namespace Guarded

theorem operatorAt_append {p cs : Text} {c : Char} (h : c.utf8Size = 1) :
    operatorAt (p ++ c :: cs) (size p) = pure (Offside.operatorAt (c :: cs)) := by
  have hslice : slice (p ++ c :: cs) (size p) (size p + 1) = pure [c] := by
    have happend := slice_append p [c] cs
    rwa [Text.size_cons, Text.size_nil, Nat.add_zero, h, List.singleton_append] at happend
  rw [operatorAt, sliceFrom_size, pure_bind, hslice, Offside.operatorAt]
  cases operators.find? fun o => o.toList.isPrefixOf (c :: cs) <;> rfl

theorem assignmentTokenEnd?_append (start : Nat) {n : Nat} {p x : Text}
    (h : ∀ c ∈ p ++ x, isOperatorChar c = true) :
    assignmentTokenEnd? start (p ++ x) n (size p) =
      pure (Offside.assignmentTokenEnd? (start + size p) (operatorsFrom n x)) := by
  induction n generalizing p x with
  | zero => rfl
  | succ n ih =>
    cases x with
    | nil =>
      rw [List.append_nil, assignmentTokenEnd?, if_neg (Nat.lt_irrefl _)]
      rfl
    | cons c cs =>
      have hc : c.utf8Size = 1 := utf8Size_of_isOperatorChar (h c (by simp))
      have htoken := isPrefix_operatorAt (c :: cs)
      have hjoin := List.prefix_iff_eq_append.1 htoken
      have hsize : size (Offside.operatorAt (c :: cs)) = (Offside.operatorAt (c :: cs)).length :=
        size_of_isOperatorChar fun k hk => h k (List.mem_append_right p (htoken.subset hk))
      have hnext := ih (p := p ++ Offside.operatorAt (c :: cs))
        (x := (c :: cs).drop (Offside.operatorAt (c :: cs)).length)
        (by rw [List.append_assoc, hjoin]; exact h)
      rw [List.append_assoc, hjoin, Text.size_append, ← Nat.add_assoc, hsize] at hnext
      rw [assignmentTokenEnd?, if_pos (by simp; omega), operatorAt_append hc, pure_bind, hsize, hnext,
        operatorsFrom, Offside.assignmentTokenEnd?, ite_pure]

theorem assignmentEnd?_eq {chars : List CodeChar} (h : InSequence chars) :
    assignmentEnd? chars = pure (Offside.assignmentEnd? chars) := by
  have hruns := operatorRuns_append [] chars h (Nat.le_refl _)
  rw [List.nil_append, List.length_nil] at hruns
  rw [assignmentEnd?, hruns, pure_bind, Offside.assignmentEnd?]
  refine findSomeM?_eq fun run hrun => ?_
  have htoken := assignmentTokenEnd?_append run.1 (n := run.2.length) (p := [])
    (isOperatorChar_of_mem_operatorRuns run hrun)
  simpa [operatorTokens] using htoken

end Guarded

/-! ### Where an assignment ends -/

/-- The first assignment operator of a run ends behind some of its characters. -/
theorem exists_prefix_of_assignmentTokenEnd? {n start stop : Nat} {x : Text}
    (h : assignmentTokenEnd? start (operatorsFrom n x) = some stop) :
    ∃ q, q <+: x ∧ stop = start + q.length := by
  induction n generalizing start x with
  | zero => cases h
  | succ n ih =>
    cases x with
    | nil => cases h
    | cons c cs =>
      have htoken := isPrefix_operatorAt (c :: cs)
      rw [operatorsFrom, assignmentTokenEnd?] at h
      split at h
      · cases h
        exact ⟨_, htoken, rfl⟩
      · obtain ⟨q, hq, rfl⟩ := ih h
        refine ⟨operatorAt (c :: cs) ++ q, ?_, by rw [List.length_append, Nat.add_assoc]⟩
        have hjoin := (List.prefix_append_right_inj (operatorAt (c :: cs))).2 hq
        rwa [List.prefix_iff_eq_append.1 htoken] at hjoin

/-- The first assignment operator ends at a boundary of the text in which the characters stand. -/
theorem exists_append_of_assignmentEnd? {chars : List CodeChar} {t : Text} {base n : Nat}
    (hchars : ∀ c ∈ chars, t.StandsAt base c.offset [c.char]) (h : assignmentEnd? chars = some n) :
    ∃ u x, t = u ++ x ∧ n = base + size u := by
  obtain ⟨run, hrun, hend⟩ := List.exists_of_findSome?_eq_some h
  obtain ⟨q, ⟨r, hq⟩, rfl⟩ := exists_prefix_of_assignmentTokenEnd? hend
  have hstands := standsAt_of_mem_operatorRuns hchars run hrun
  have hsize : size q = q.length := size_of_isOperatorChar fun c hc =>
    isOperatorChar_of_mem_operatorRuns run hrun c (hq ▸ List.mem_append_left r hc)
  rw [← hq] at hstands
  obtain ⟨u, x, ht, hu⟩ := hstands.of_append.exists_append
  exact ⟨u, x, ht, by rw [← hsize, hu]⟩

namespace Document

variable {d : Document} {line : Nat}

theorem inSequence_codeCharsOfLines (d : Document) (line stop : Nat) :
    InSequence (d.codeCharsOfLines line stop) :=
  Scanner.pairwise_codeChars stop _ _ _ _

/-- Code characters stand in the text from the start of their line on. -/
theorem standsAt_of_mem_codeCharsOfLines {stop : Nat} {c : CodeChar}
    (h : c ∈ d.codeCharsOfLines line stop) :
    (d.text.dropBytes (d.buffer.lineStart line)).StandsAt (d.buffer.lineStart line) c.offset
      [c.char] := by
  rw [codeCharsOfLines_eq, Lexical.codeChars, Scanner.codeCharsOf] at h
  have hoffset : (Scanner.ofOffset d.text (d.buffer.lineStart line)).offset =
      d.buffer.lineStart line := by
    rw [Scanner.ofOffset_offset]
    exact d.buffer.isBoundary_lineStart line
  have hstands := Scanner.standsAt_of_mem_codeChars h
  rwa [hoffset] at hstands

/-- The offset of what follows the first assignment operator of a line. -/
def assignmentTarget? (d : Document) (line : Nat) : Option Nat :=
  (assignmentEnd? (d.codeCharsOfLines line (d.buffer.lineEnd line))).map fun stop =>
    stop + (((d.buffer.lineText line).dropBytes (stop - d.buffer.lineStart line)).takeWhile
      isGap).length

theorem assignmentContinuation?_eq_ite (d : Document) (line : Nat) :
    d.assignmentContinuation? line =
      if d.statementStart line ≠ line ∧
          (blockKeyword? (d.buffer.lineText (d.statementStart line))).isNone = true then
        d.assignmentTarget? (d.statementStart line)
      else none :=
  rfl

/-- The first assignment operator of a line ends at a boundary of the line. -/
theorem exists_lineText_of_assignmentEnd? {n : Nat}
    (h : assignmentEnd? (d.codeCharsOfLines line (d.buffer.lineEnd line)) = some n) :
    ∃ u r, d.buffer.lineText line = u ++ r ∧ n = d.buffer.lineStart line + size u := by
  obtain ⟨p, x, htext, hstart, hend⟩ := d.buffer.exists_text_around_body line
  obtain ⟨u, y, hu, rfl⟩ :=
    exists_append_of_assignmentEnd? (fun c hc => standsAt_of_mem_codeCharsOfLines hc) h
  have hle := assignmentEnd?_le (fun c hc => offset_lt_of_mem_codeCharsOfLines hc) h
  have hdrop : d.text.dropBytes (d.buffer.lineStart line) = d.buffer.lineText line ++ x := by
    rw [Document.text, htext, hstart, Text.dropBytes_size]
  have hbound : Text.IsBoundary (d.buffer.lineText line ++ x) (size u) := by
    rw [← hdrop, hu]
    exact Text.isBoundary_size u y
  obtain ⟨v, r, hv, hsize⟩ := Text.isBoundary_iff.1 (hbound.of_append (by omega))
  exact ⟨v, r, hv, by rw [hsize]⟩

end Document

/-! ### Continuation lines -/

/-- Spaces and tabs take one byte each. -/
theorem size_takeWhile_isGap (t : Text) :
    size (t.takeWhile isGap) = (t.takeWhile isGap).length :=
  Text.size_eq_length fun _ hc => utf8Size_of_isGap (List.mem_takeWhile_imp hc)

namespace Guarded

/-- The number of bytes of the gap at the start of a text. -/
def gapSize (t : Text) : Guarded Nat := minus t.size t.afterGap.size

/-- For a continuation line of a statement that begins a block: the offset of its keyword. -/
def blockContinuation? (d : Document) (line : Nat) : Guarded (Option Nat) := do
  let start ← statementStart d line
  if start ≠ line then
    if (← blockKeyword? (← lineText d.buffer start)).isSome then
      return some (← indentationEnd d.buffer start)
    else return none
  else return none

/-- For a continuation line of a statement whose first line assigns outside brackets and begins no
block: the offset of what follows the operator and the gap after it. -/
def assignmentContinuation? (d : Document) (line : Nat) : Guarded (Option Nat) := do
  let start ← statementStart d line
  if start ≠ line then
    if (← blockKeyword? (← lineText d.buffer start)).isNone then
      let lineEnd ← lineEnd d.buffer start
      mapSome (← assignmentEnd? (← codeCharsOfLines d start lineEnd)) fun stop => do
        return stop + (← gapSize (← slice d.text stop lineEnd))
    else return none
  else return none

@[simp] theorem gapSize_eq (t : Text) : gapSize t = pure (t.takeWhile isGap).length := by
  have hsize := congrArg size (List.takeWhile_append_dropWhile (p := isGap) (l := t))
  rw [Text.size_append, size_takeWhile_isGap] at hsize
  rw [gapSize, Text.afterGap, minus_of_le (by omega), ← hsize, Nat.add_sub_cancel]

@[simp] theorem blockContinuation?_eq (d : Document) (line : Nat) :
    blockContinuation? d line = pure (d.blockContinuation? line) := by
  simp only [blockContinuation?, statementStart_eq, lineText_eq, blockKeyword?_eq,
    indentationEnd_eq, pure_bind, ite_pure, Document.blockContinuation?]
  split <;> simp [*]

/-- What follows an assignment operator is sliced from the line of the operator. -/
theorem slice_of_assignmentEnd? {d : Document} {line n : Nat}
    (h : Offside.assignmentEnd? (d.codeCharsOfLines line (d.buffer.lineEnd line)) = some n) :
    slice d.text n (d.buffer.lineEnd line) =
      pure ((d.buffer.lineText line).dropBytes (n - d.buffer.lineStart line)) := by
  obtain ⟨u, r, hbody, rfl⟩ := Document.exists_lineText_of_assignmentEnd? h
  rw [Document.text, slice_lineText hbody, hbody, Nat.add_sub_cancel_left, Text.dropBytes_size]

@[simp] theorem assignmentContinuation?_eq (d : Document) (line : Nat) :
    assignmentContinuation? d line = pure (d.assignmentContinuation? line) := by
  have hend := assignmentEnd?_eq (d.inSequence_codeCharsOfLines (d.statementStart line)
    (d.buffer.lineEnd (d.statementStart line)))
  have htarget : mapSome (Offside.assignmentEnd? (d.codeCharsOfLines (d.statementStart line)
      (d.buffer.lineEnd (d.statementStart line)))) (fun stop => do
        return stop + (← gapSize (← slice d.text stop (d.buffer.lineEnd (d.statementStart line))))) =
      pure (d.assignmentTarget? (d.statementStart line)) :=
    mapSome_eq fun stop hstop => by
      rw [slice_of_assignmentEnd? hstop, pure_bind, gapSize_eq, pure_bind]
  simp only [assignmentContinuation?, statementStart_eq, lineText_eq, blockKeyword?_eq, lineEnd_eq,
    codeCharsOfLines_eq, hend, pure_bind, htarget, ite_pure, Document.assignmentContinuation?_eq_ite]
  split <;> simp [*]

end Guarded

end Offside
