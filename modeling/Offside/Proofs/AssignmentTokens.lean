import Mathlib.Data.List.Pairwise
import Offside.Proofs.Lexical.CodeFilter
import Offside.Proofs.LongestMatch

/-!
# Assignments by longest match

The first line of a statement that begins no block is searched for an assignment operator.  Seen
from the text, its operator characters outside brackets, strings and comments form runs, each run is
cut into operators by longest match, and the first assignment operator among these is the one that
is found.

* `Lexical.classify_after_of_isPlain`: an operator character of code does not change the state;
* `Document.IsOperatorOf`, `isOperatorOf_iff`: the operator characters of a line;
* `Document.IsTokenOf`, `isTokenOf_iff`: the operators of a line;
* `Document.FirstAssignment`, `exists_firstAssignment`: the operator that the search finds;
* `Buffer.takeWhile_isGap_of_lineText`: the gap after an operator ends on its line;
* `assignments_are_found_by_longest_match`.
-/

namespace Offside

open Lexical

/-! ### Operator characters of a line -/

/-- A character that means nothing to the scanner leaves the state of code as it is. -/
theorem Lexical.classify_after_of_isPlain {text : Text} {offset : Nat} {c : Char}
    (hstands : text.StandsAt 0 offset [c]) (h : (classify text offset).isCode = true)
    (hc : Scanner.IsPlain c) : classify text (offset + c.utf8Size) = classify text offset := by
  obtain ⟨before, after, s, hreach, hskip, -, hbefore, hafter⟩ := exists_scanner_of_isCode hstands h
  rw [hafter, hbefore, Scanner.step_of_isPlain hreach hskip hc]
  rfl

theorem isPlain_of_isOperatorChar {c : Char} (h : isOperatorChar c = true) : Scanner.IsPlain c :=
  of_isOperatorChar Scanner.IsPlain h (by decide)

namespace Document

variable {d : Document} {line offset : Nat} {c : Char} {token : Text}

/-- An operator character of a line: it stands in code, as deep in brackets as the line starts. -/
structure IsOperatorOf (d : Document) (line offset : Nat) (c : Char) : Prop where
  stands : d.text.StandsAt 0 offset [c]
  start_le : d.buffer.lineStart line ≤ offset
  lt_end : offset < d.buffer.lineEnd line
  isOperatorChar : isOperatorChar c = true
  isCode : (d.stateAt offset).isCode = true
  depth_eq : (d.stateAt offset).depth = (d.lineStartState line).depth

/-- The search for operators looks at the operator characters of the line. -/
theorem isOperatorOf_iff : d.IsOperatorOf line offset c ↔
    OperatorIn (d.codeCharsOfLines line (d.buffer.lineEnd line)) offset c := by
  have hfloor : d.text.floorBoundary (d.buffer.lineStart line) = d.buffer.lineStart line :=
    d.buffer.isBoundary_lineStart line
  constructor
  · rintro ⟨hstands, hlo, hhi, hop, hcode, hdepth⟩
    rw [stateAt_eq] at hcode hdepth
    rw [lineStartState_eq] at hdepth
    have hafter := classify_after_of_isPlain hstands hcode (isPlain_of_isOperatorChar hop)
    refine ⟨⟨offset, c, 0⟩, ?_, ⟨rfl, hop⟩, rfl, rfl⟩
    rw [codeCharsOfLines_eq, mem_codeChars_iff, hfloor]
    refine ⟨hstands, hlo, hhi, hcode, hafter ▸ hcode, ?_⟩
    rw [hafter, Nat.min_self, hdepth, Int.sub_self]
  · rintro ⟨k, hk, ⟨hzero, hop⟩, rfl, rfl⟩
    rw [codeCharsOfLines_eq, mem_codeChars_iff, hfloor] at hk
    obtain ⟨hstands, hlo, hhi, hcode, -, hdepth⟩ := hk
    have hafter := classify_after_of_isPlain hstands hcode (isPlain_of_isOperatorChar hop)
    rw [hafter, Nat.min_self, hzero] at hdepth
    refine ⟨hstands, hlo, hhi, hop, by rw [stateAt_eq]; exact hcode, ?_⟩
    rw [stateAt_eq, lineStartState_eq]
    omega

/-- An operator of a line at an offset: one of the operators into which longest match cuts a run of
operator characters that cannot be made longer. -/
def IsTokenOf (d : Document) (line offset : Nat) (token : Text) : Prop :=
  ∃ start run before after, IsMaximalRun (d.IsOperatorOf line) start run ∧
    LongestMatch run (before ++ token :: after) ∧ offset = start + before.flatten.length

theorem isMaximalRun_isOperatorOf_iff {start : Nat} {run : Text} :
    IsMaximalRun (d.IsOperatorOf line) start run ↔
      (start, run) ∈ operatorRuns (d.codeCharsOfLines line (d.buffer.lineEnd line)) := by
  have hplace : d.IsOperatorOf line =
      OperatorIn (d.codeCharsOfLines line (d.buffer.lineEnd line)) := by
    funext offset c
    exact propext isOperatorOf_iff
  rw [hplace, mem_operatorRuns_iff (d.inSequence_codeCharsOfLines _ _)]

theorem isTokenOf_iff : d.IsTokenOf line offset token ↔
    (offset, token) ∈ operatorPlaces (d.codeCharsOfLines line (d.buffer.lineEnd line)) := by
  have hseq := d.inSequence_codeCharsOfLines line (d.buffer.lineEnd line)
  simp only [IsTokenOf, isMaximalRun_isOperatorOf_iff, mem_operatorRuns_iff hseq,
    mem_operatorPlaces_iff hseq]

/-- The characters of an operator are operator characters. -/
theorem IsTokenOf.isOperatorOf (h : d.IsTokenOf line offset token) {i : Nat}
    (hi : i < token.length) : d.IsOperatorOf line (offset + i) token[i] := by
  obtain ⟨start, run, before, after, hrun, hmatch, rfl⟩ := h
  have hflat := hmatch.flatten_eq
  rw [List.flatten_append, List.flatten_cons] at hflat
  have hlength : before.flatten.length + i < run.length := by
    rw [← hflat, List.length_append, List.length_append]
    omega
  have hplace := hrun.places _ hlength
  have hchar : run[before.flatten.length + i] = token[i] := by
    simp only [← hflat]
    rw [List.getElem_append_right (Nat.le_add_right _ _)]
    simp only [Nat.add_sub_cancel_left]
    exact List.getElem_append_left hi
  rwa [hchar, ← Nat.add_assoc] at hplace

theorem IsTokenOf.ne_nil (h : d.IsTokenOf line offset token) : token ≠ [] := by
  obtain ⟨start, run, before, after, -, hmatch, -⟩ := h
  exact ne_nil_of_isOneOf (hmatch.isOneOf token (by simp))

/-- Runs are made of operator characters. -/
theorem isOperatorChar_of_isMaximalRun {start : Nat} {run : Text}
    (h : IsMaximalRun (d.IsOperatorOf line) start run) : ∀ c ∈ run, isOperatorChar c = true := by
  intro c hc
  obtain ⟨i, hi, rfl⟩ := List.getElem_of_mem hc
  exact (h.places i hi).isOperatorChar

/-- Every suffix of a run begins with an operator of the table. -/
theorem isSome_find?_operators_of_run {start : Nat} {run before rest : Text}
    (h : IsMaximalRun (d.IsOperatorOf line) start run) (hrun : run = before ++ rest)
    (hrest : rest ≠ []) :
    (operators.find? fun op => op.toList.isPrefixOf rest).isSome = true := by
  obtain ⟨c, cs, rfl⟩ := List.exists_cons_of_ne_nil hrest
  have hc := isOperatorChar_of_isMaximalRun h c (by simp [hrun])
  obtain ⟨op, -, hfind, -⟩ := exists_find?_operators hc cs
  rw [hfind]
  rfl

/-! ### The first assignment operator -/

/-- Two operators of a line do not overlap. -/
theorem IsTokenOf.apart {offset' : Nat} {token' : Text} (h : d.IsTokenOf line offset token)
    (h' : d.IsTokenOf line offset' token') (hne : token ≠ token') :
    offset + token.length ≤ offset' ∨ offset' + token'.length ≤ offset := by
  have hseq := d.inSequence_codeCharsOfLines line (d.buffer.lineEnd line)
  have hpairs : (operatorPlaces (d.codeCharsOfLines line (d.buffer.lineEnd line))).Pairwise
      fun p q => p.1 + p.2.length ≤ q.1 ∨ q.1 + q.2.length ≤ p.1 :=
    (pairwise_operatorPlaces hseq).imp .inl
  have hsymm : Std.Symm fun p q : Nat × Text =>
      p.1 + p.2.length ≤ q.1 ∨ q.1 + q.2.length ≤ p.1 := ⟨fun _ _ => Or.symm⟩
  exact hpairs.forall (isTokenOf_iff.1 h) (isTokenOf_iff.1 h') fun heq =>
    hne (congrArg Prod.snd heq)

/-- The leftmost assignment operator of a line. -/
structure FirstAssignment (d : Document) (line offset : Nat) (token : Text) : Prop where
  isTokenOf : d.IsTokenOf line offset token
  assigns : IsOneOf assignmentOperators token
  le : ∀ offset' token', d.IsTokenOf line offset' token' →
    IsOneOf assignmentOperators token' → offset ≤ offset'

/-- The search finds something if the line has an assignment operator. -/
theorem isSome_assignmentEnd?_iff :
    (assignmentEnd? (d.codeCharsOfLines line (d.buffer.lineEnd line))).isSome = true ↔
      ∃ offset token, d.IsTokenOf line offset token ∧ IsOneOf assignmentOperators token := by
  rw [assignmentEnd?_eq_find?, Option.isSome_map, List.find?_isSome]
  simp only [Prod.exists, isTokenOf_iff, decide_eq_true_iff]

/-- The search finds the end of the first assignment operator. -/
theorem exists_firstAssignment {stop : Nat}
    (h : assignmentEnd? (d.codeCharsOfLines line (d.buffer.lineEnd line)) = some stop) :
    ∃ offset token, d.FirstAssignment line offset token ∧ stop = offset + token.length := by
  rw [assignmentEnd?_eq_find?] at h
  obtain ⟨⟨offset, token⟩, hfind, rfl⟩ := Option.map_eq_some_iff.1 h
  obtain ⟨hassigns, earlier, later, hplaces, hearlier⟩ := List.find?_eq_some_iff_append.1 hfind
  have hsorted := pairwise_operatorPlaces
    (d.inSequence_codeCharsOfLines line (d.buffer.lineEnd line))
  refine ⟨offset, token, ⟨isTokenOf_iff.2 (List.mem_of_find?_eq_some hfind),
    of_decide_eq_true hassigns, fun offset' token' htoken' hassigns' => ?_⟩, rfl⟩
  rw [isTokenOf_iff, hplaces] at htoken'
  rw [hplaces] at hsorted
  rcases List.mem_append.1 htoken' with hmem | hmem
  · have hno := hearlier _ hmem
    rw [decide_eq_true hassigns'] at hno
    cases hno
  · rcases List.mem_cons.1 hmem with heq | hmem
    · exact Nat.le_of_eq (congrArg Prod.fst heq).symm
    · have hle := (List.pairwise_cons.1 (List.pairwise_append.1 hsorted).2.1).1 _ hmem
      exact Nat.le_trans (Nat.le_add_right _ _) hle

/-- The last character of the first assignment operator is an equals sign outside brackets, strings
and comments. -/
theorem FirstAssignment.isOperatorOf (h : d.FirstAssignment line offset token) :
    d.IsOperatorOf line (offset + token.length - 1) '=' := by
  have hall : ∀ op ∈ assignmentOperators, op.toList.getLast? = some '=' := by decide
  obtain ⟨op, hop, htoken⟩ := h.assigns
  have hlast := hall op hop
  have hpos := List.length_pos_iff.2 h.isTokenOf.ne_nil
  have hplace := h.isTokenOf.isOperatorOf (Nat.sub_lt hpos Nat.one_pos)
  rw [htoken, List.getLast?_eq_getElem?, List.getElem?_eq_some_iff] at hlast
  obtain ⟨hlt, hchar⟩ := hlast
  rwa [hchar, ← Nat.add_sub_assoc hpos] at hplace

/-- The equals sign of the first assignment operator is part of no comparison, and of no `:=`. -/
theorem FirstAssignment.apart_of_comparison {offset' : Nat} {token' : Text}
    (h : d.FirstAssignment line offset token) (h' : d.IsTokenOf line offset' token')
    (hother : IsOneOf ["==", "<=", ">=", "!=", ":="] token') :
    offset' + token'.length ≤ offset + token.length - 1 ∨ offset + token.length ≤ offset' := by
  have hall : ∀ op ∈ ["==", "<=", ">=", "!=", ":="], ¬ IsOneOf assignmentOperators op.toList := by
    decide
  have hne : token' ≠ token := by
    obtain ⟨op, hop, rfl⟩ := hother
    rintro rfl
    exact hall op hop h.assigns
  have hapart := h'.apart h.isTokenOf hne
  have hpos := List.length_pos_iff.2 h.isTokenOf.ne_nil
  omega

end Document

/-! ### The gap after an operator -/

/-- The gap after a place of a line ends on the line. -/
theorem Buffer.takeWhile_isGap_of_lineText {b : Buffer} {line : Nat} {u r : Text}
    (h : b.lineText line = u ++ r) :
    (b.text.dropBytes (b.lineStart line + Text.size u)).takeWhile isGap = r.takeWhile isGap := by
  obtain ⟨above, row, below, hrows, hline⟩ := b.exists_rows_clampLine line
  have htext := text_around_body hrows
  rw [lineText, ← b.line_clampLine line, hline, line_of_rows hrows] at h
  rw [lineStart, ← b.line_clampLine line, hline, line_of_rows hrows, Line.ofRow_start, htext, h,
    List.append_assoc, ← List.append_assoc above.flatten, ← Text.size_append, Text.dropBytes_size]
  -- what comes after the line is its terminator, or nothing
  have hafter : ((Line.ofRow (Text.size above.flatten) row).ending.text ++
      below.flatten).takeWhile isGap = [] := by
    rcases Text.row_cases_of_rows hrows with ⟨-, hfull⟩ | ⟨rfl, hlast⟩
    · rcases Line.ofRow_cases (Text.size above.flatten) hfull with
        ⟨body, -, hrow⟩ | ⟨body, -, hrow, -⟩
      all_goals rw [hrow]; rfl
    · rw [Line.ofRow_of_not_mem _ hlast]
      rfl
  rw [List.takeWhile_append, hafter]
  split
  · next hall =>
    rw [List.append_nil, (List.takeWhile_prefix isGap).eq_of_length hall]
  · rfl

/-- What follows the first assignment operator of a line and the gap after it. -/
theorem Document.exists_of_assignmentTarget? {d : Document} {line target : Nat}
    (h : d.assignmentTarget? line = some target) :
    ∃ offset token, d.FirstAssignment line offset token ∧
      target = offset + token.length +
        ((d.text.dropBytes (offset + token.length)).takeWhile isGap).length := by
  obtain ⟨stop, hstop, rfl⟩ := Option.map_eq_some_iff.1 h
  obtain ⟨u, r, hbody, hsize⟩ := exists_lineText_of_assignmentEnd? hstop
  obtain ⟨offset, token, hfirst, rfl⟩ := exists_firstAssignment hstop
  refine ⟨offset, token, hfirst, ?_⟩
  rw [hsize, Nat.add_sub_cancel_left, hbody, Text.dropBytes_size, Document.text,
    Buffer.takeWhile_isGap_of_lineText hbody]

/-- **Assignments are found by longest match.**  The operator characters on the first line of a
statement that stand in code outside brackets form maximal runs.  Longest match cuts each run into
operators in one way, with an operator of the table at every place.  A later line of the statement
is lined up with an assignment exactly if the first line begins no block and one of these operators
assigns; then it is lined up with what follows the first such operator and the spaces and tabs after
it, which is on the first line.  The equals sign at the end of this operator stands in code outside
brackets, and is part of no comparison and of no `:=`. -/
theorem assignments_are_found_by_longest_match (d : Document) (line : Nat)
    (hline : d.statementStart line ≠ line) :
    let first := d.statementStart line
    (∀ start run, IsMaximalRun (d.IsOperatorOf first) start run →
      (∀ tokens, LongestMatch run tokens ↔ tokens = operatorTokens run) ∧
      ∀ before rest, run = before ++ rest → rest ≠ [] →
        (operators.find? fun op => op.toList.isPrefixOf rest).isSome = true) ∧
    ((d.assignmentContinuation? line).isSome = true ↔
      blockKeyword? (d.buffer.lineText first) = none ∧
        ∃ offset token, d.IsTokenOf first offset token ∧ IsOneOf assignmentOperators token) ∧
    ∀ target, d.assignmentContinuation? line = some target →
      target ≤ d.buffer.lineEnd first ∧
      ∃ offset token, d.FirstAssignment first offset token ∧
        target = offset + token.length +
          ((d.text.dropBytes (offset + token.length)).takeWhile isGap).length ∧
        d.IsOperatorOf first (offset + token.length - 1) '=' ∧
        ∀ offset' token', d.IsTokenOf first offset' token' →
          IsOneOf ["==", "<=", ">=", "!=", ":="] token' →
          offset' + token'.length ≤ offset + token.length - 1 ∨
            offset + token.length ≤ offset' := by
  intro first
  have hcontinuation : d.assignmentContinuation? line =
      if (blockKeyword? (d.buffer.lineText first)).isNone = true then d.assignmentTarget? first
      else none := by
    rw [Document.assignmentContinuation?_eq_ite]
    simp only [hline, ne_eq, not_false_eq_true, true_and, first]
  refine ⟨fun start run hrun => ⟨fun tokens => ?_, fun before rest hcut hrest =>
    Document.isSome_find?_operators_of_run hrun hcut hrest⟩, ?_, fun target htarget =>
    ⟨Document.assignmentContinuation?_le htarget, ?_⟩⟩
  · exact longestMatch_iff (Document.isOperatorChar_of_isMaximalRun hrun)
  · rw [hcontinuation, ← Document.isSome_assignmentEnd?_iff, ← Option.isNone_iff_eq_none]
    split
    · next hnone => simp [hnone, Document.assignmentTarget?]
    · next hsome => simp [hsome]
  · rw [hcontinuation] at htarget
    split at htarget
    · obtain ⟨offset, token, hfirst, hgap⟩ := Document.exists_of_assignmentTarget? htarget
      exact ⟨offset, token, hfirst, hgap, hfirst.isOperatorOf, fun offset' token' =>
        hfirst.apart_of_comparison⟩
    · cases htarget

/-- A comparison, an equals sign in brackets and one in a string, around the operator that
assigns. -/
theorem assignments_are_found_by_longest_match_past_comparison :
    let d := Document.ofText "a != b, c[d=1] **=  '=' == \\\n  e\n".toList
    d.statementStart 2 = 1 ∧ d.assignmentContinuation? 2 = some 20 ∧ 20 ≤ d.buffer.lineEnd 1 ∧
      ∃ offset token, d.FirstAssignment 1 offset token ∧
        20 = offset + token.length +
          ((d.text.dropBytes (offset + token.length)).takeWhile isGap).length := by
  intro d
  have hstart : d.statementStart 2 = 1 := by decide +kernel
  have htarget : d.assignmentContinuation? 2 = some 20 := by decide +kernel
  have hfound := (assignments_are_found_by_longest_match d 2 (by omega)).2.2 20 htarget
  rw [hstart] at hfound
  obtain ⟨hle, offset, token, hfirst, hgap, -⟩ := hfound
  exact ⟨hstart, htarget, hle, offset, token, hfirst, hgap⟩

end Offside
