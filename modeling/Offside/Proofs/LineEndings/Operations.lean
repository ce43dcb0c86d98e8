import Offside.Proofs.LineEndings.Columns

/-!
# Operations with other line endings

An operation that changes indentation reads columns and writes before the first other character of a
line.  On a document with other line endings it is refused for the same reason, or it makes the same
change, so that the results again differ in their line endings only.

* `SameOutcome`: the same refusal, or the same answer with documents that differ in line endings;
* `CrlfVersion.sameOutcome_apply`, `sameOutcome_setIndentation`: new indentation for lines;
* `CrlfVersion.sameOutcome_shiftRight`, `sameOutcome_shiftLeft`, `sameOutcome_reindent`,
  `sameOutcome_electricDedent`: the operations.
-/

namespace Offside

open Lexical

variable {α β : Type}

/-- The same refusal, or the same answer with documents of which the second has other line endings.
-/
inductive SameOutcome : Except EditError (α × Document) → Except EditError (α × Document) → Prop
  | refused (err : EditError) : SameOutcome (.error err) (.error err)
  | done (answer : α) {d e : Document} (h : CrlfVersion d e) :
    SameOutcome (.ok (answer, d)) (.ok (answer, e))

/-- Steps with the same outcomes can be made one after the other. -/
theorem SameOutcome.bind {r r' : Except EditError (α × Document)}
    {next next' : α × Document → Except EditError (β × Document)} (h : SameOutcome r r')
    (hnext : ∀ a d e, CrlfVersion d e → SameOutcome (next (a, d)) (next' (a, e))) :
    SameOutcome (r >>= next) (r' >>= next') := by
  cases h with
  | refused err => exact .refused err
  | done answer hversion => exact hnext answer _ _ hversion

/-- Indentation has no carriage returns in it. -/
theorem Text.IsIndentation.not_mem_return {i : Text} (hi : IsIndentation i) : '\r' ∉ i :=
  fun hmem => absurd (hi '\r' hmem) (by decide)

/-- New indentation does not touch line endings. -/
theorem Text.indentWith_withCrlf {i : Option Text} (hi : ∀ j ∈ i, IsIndentation j) (row : Text) :
    indentWith i row.withCrlf = (indentWith i row).withCrlf := by
  cases i with
  | none => rfl
  | some i =>
    rw [indentWith, indentWith, withCrlf_append, withCrlf_of_not_mem (hi i rfl).not_mem_newline,
      (indentation_withCrlf row).2]

theorem Text.not_mem_indentWith {i : Option Text} {row : Text} (hi : ∀ j ∈ i, IsIndentation j)
    (hrow : '\r' ∉ row) : '\r' ∉ indentWith i row := by
  cases i with
  | none => exact hrow
  | some i =>
    intro hmem
    rcases List.mem_append.1 hmem with hmem | hmem
    · exact (hi i rfl).not_mem_return hmem
    · exact hrow ((List.dropWhile_suffix _).subset hmem)

namespace CrlfVersion

variable {d e : Document} {lines : List Nat} {line start stop : Nat}

theorem written_eq (h : CrlfVersion d e) (column : Nat) : e.written column = d.written column := by
  rw [Document.written, Document.written, h.settings_eq]

/-! ### New indentation -/

/-- New indentation changes the same lines. -/
theorem changedLines_eq (h : CrlfVersion d e) (hlines : ∀ l ∈ lines, 1 ≤ l ∧ l ≤ d.lineCount)
    (column : Nat → Nat) : e.changedLines lines column = d.changedLines lines column := by
  refine List.filter_congr fun l hl => ?_
  obtain ⟨above, row, below, hd, rfl⟩ := Buffer.exists_rows (hlines l hl).1 (hlines l hl).2
  have hnoop := Document.isNoop_indentationEdit hd (column (above.length + 1))
  have hnoop' := Document.isNoop_indentationEdit (h.rows_of_rows hd) (column (above.length + 1))
  rw [List.length_map, (Text.indentation_withCrlf row).1, h.written_eq, ← hnoop] at hnoop'
  exact congrArg not (Bool.eq_iff_iff.2 hnoop')

/-- Documents that are given the same new indentation still differ in their line endings only. -/
theorem of_rows_mapIdx (h : CrlfVersion d e) {d' e' : Document} {new : Nat → Option Text}
    (hnew : ∀ k, ∀ i ∈ new k, Text.IsIndentation i)
    (hd : d'.text.rows = d.text.rows.mapIdx fun k r => Text.indentWith (new k) r)
    (he : e'.text.rows = e.text.rows.mapIdx fun k r => Text.indentWith (new k) r)
    (hs : e'.settings = d'.settings) : CrlfVersion d' e' where
  not_mem := by
    rw [← Text.flatten_rows d'.text, hd]
    intro hmem
    obtain ⟨r, hr, hmem⟩ := List.mem_flatten.1 hmem
    obtain ⟨k, hk, rfl⟩ := List.mem_mapIdx.1 hr
    refine Text.not_mem_indentWith (hnew k) (fun hrow => h.not_mem ?_) hmem
    rw [← Text.flatten_rows d.text]
    exact List.mem_flatten.2 ⟨_, List.getElem_mem hk, hrow⟩
  text_eq := by
    rw [← Text.flatten_rows e'.text, he, h.rows_eq, ← Text.flatten_rows d'.text, hd,
      Text.withCrlf_flatten]
    congr 1
    refine List.ext_getElem (by simp) fun k hk hk' => ?_
    simp only [List.getElem_mapIdx, List.getElem_map, Text.indentWith_withCrlf (hnew k)]
  settings_eq := hs

/-- New indentation is written in both documents or in neither. -/
theorem sameOutcome_apply (h : CrlfVersion d e) (hsorted : lines.Pairwise (· < ·))
    (hlines : ∀ l ∈ lines, 1 ≤ l ∧ l ≤ d.lineCount) (column : Nat → Nat) :
    SameOutcome (d.apply (lines.map fun l => d.indentationEdit l (column l)))
      (e.apply (lines.map fun l => e.indentationEdit l (column l))) := by
  have hlines' : ∀ l ∈ lines, 1 ≤ l ∧ l ≤ e.lineCount := h.lineCount_eq ▸ hlines
  obtain ⟨d', hd, hsettings, hrows⟩ := Document.apply_indentationEdits column hsorted hlines
  obtain ⟨e', he, hsettings', hrows'⟩ := Document.apply_indentationEdits column hsorted hlines'
  have hnew : e.newIndentation lines column = d.newIndentation lines column := by
    funext k
    rw [Document.newIndentation, Document.newIndentation, h.written_eq]
  rw [hnew] at hrows'
  rw [hd, he, h.changedLines_eq hlines]
  refine .done _ (h.of_rows_mapIdx (d.isIndentation_newIndentation lines column) hrows hrows' ?_)
  rw [hsettings', hsettings, h.settings_eq]

theorem checkLine_eq (h : CrlfVersion d e) (line : Nat) : e.checkLine line = d.checkLine line := by
  rw [Document.checkLine, Document.checkLine, h.hasLine_eq, h.lineCount_eq]

theorem checkRegion_eq (h : CrlfVersion d e) (start stop : Nat) :
    e.checkRegion start stop = d.checkRegion start stop := by
  rw [Document.checkRegion, Document.checkRegion, h.checkLine_eq, h.checkLine_eq]

theorem sameOutcome_setIndentation (h : CrlfVersion d e) (line column : Nat) :
    SameOutcome (d.setIndentation line column) (e.setIndentation line column) := by
  by_cases hline : 1 ≤ line ∧ line ≤ d.lineCount
  · have happly := h.sameOutcome_apply (List.pairwise_singleton (· < ·) line)
      (List.forall_mem_singleton.2 hline) fun _ => column
    rw [Document.setIndentation, Document.setIndentation, h.checkLine_eq,
      Document.checkLine_of_mem hline]
    exact happly.bind fun changed _ _ hversion => .done (decide (0 < changed)) hversion
  · rw [Document.setIndentation, Document.setIndentation, h.checkLine_eq,
      Document.checkLine_of_not_mem hline]
    exact .refused _

/-! ### Operations on a region -/

theorem regionLines_eq (h : CrlfVersion d e) (start stop : Nat) :
    e.regionLines start stop = d.regionLines start stop :=
  List.filter_congr fun l _ => congrArg not (h.isBlank_eq l)

/-- An operation that checks its region first has the same outcome if it has it on existing lines.
-/
theorem sameOutcome_region (h : CrlfVersion d e) (start stop : Nat)
    {next next' : Except EditError (α × Document)}
    (hnext : 1 ≤ start ∧ start ≤ stop ∧ stop ≤ d.lineCount → SameOutcome next next') :
    SameOutcome (d.checkRegion start stop >>= fun _ => next)
      (e.checkRegion start stop >>= fun _ => next') := by
  rw [h.checkRegion_eq]
  rcases d.checkRegion_cases start stop with ⟨err, hcheck, -⟩ | ⟨hcheck, hregion, -⟩
  · rw [hcheck]
    exact .refused err
  · rw [hcheck]
    exact hnext hregion

theorem sameOutcome_shiftRight (h : CrlfVersion d e) (start stop : Nat) (count : Option Nat) :
    SameOutcome (d.shiftRight start stop count) (e.shiftRight start stop count) := by
  refine h.sameOutcome_region start stop fun hregion => ?_
  rw [h.regionLines_eq, h.indentUnit_eq]
  simp only [h.indentation_eq]
  exact h.sameOutcome_apply (d.pairwise_regionLines start stop) (Document.mem_regionLines hregion) _

theorem sameOutcome_shiftLeft (h : CrlfVersion d e) (start stop : Nat) (count : Option Nat) :
    SameOutcome (d.shiftLeft start stop count) (e.shiftLeft start stop count) := by
  refine h.sameOutcome_region start stop fun hregion => ?_
  rw [h.regionLines_eq, h.indentUnit_eq]
  simp only [h.indentation_eq]
  split
  · exact .refused _
  · exact h.sameOutcome_apply (d.pairwise_regionLines start stop)
      (Document.mem_regionLines hregion) _

/-! ### Reindenting -/

theorem followsBlockEnder_eq (h : CrlfVersion d e) (line : Nat) {s : Status}
    (hs : ∀ o, s.anchor? = some o → d.text.IsBoundary o) :
    e.followsBlockEnder line (s.map d.text.crlfOffset) = d.followsBlockEnder line s := by
  cases s with
  | afterLine previous =>
    rw [Status.map, Document.followsBlockEnder, Document.followsBlockEnder,
      h.lineOfOffset_eq (hs previous rfl), h.lineText_eq, h.lineText_eq, h.settings_eq]
  | _ => rfl

theorem targetColumn_eq (h : CrlfVersion d e) (line : Nat) :
    e.targetColumn line = d.targetColumn line := by
  obtain ⟨hone, hle⟩ := d.buffer.clampLine_mem line
  have hanchor : ∀ o, (d.report line).status.anchor? = some o → d.text.IsBoundary o :=
    fun o => Document.isBoundary_of_anchor hone hle
  simp only [Document.targetColumn, h.report_eq, h.followsBlockEnder_eq line hanchor,
    h.indentation_eq]

theorem sameOutcome_reindentLine (h : CrlfVersion d e) (line : Nat) :
    SameOutcome (d.reindentLine line) (e.reindentLine line) := by
  rw [Document.reindentLine, Document.reindentLine, h.isBlank_eq, h.lineStartState_eq,
    State.map_inString, h.targetColumn_eq]
  split
  · exact .done false h
  · exact h.sameOutcome_setIndentation line _

/-- Each line is reindented in documents that differ in their line endings only. -/
theorem sameOutcome_reindentLines (h : CrlfVersion d e) (lines : List Nat) :
    SameOutcome (d.reindentLines lines) (e.reindentLines lines) := by
  induction lines generalizing d e with
  | nil => exact .done 0 h
  | cons line rest ih =>
    exact (h.sameOutcome_reindentLine line).bind fun changed _ _ hfirst =>
      (ih hfirst).bind fun count _ _ hrest => .done (if changed then count + 1 else count) hrest

theorem sameOutcome_reindent (h : CrlfVersion d e) (start stop : Nat) :
    SameOutcome (d.reindent start stop) (e.reindent start stop) :=
  h.sameOutcome_region start stop fun _ => h.sameOutcome_reindentLines _

/-! ### Dedent keywords -/

theorem dedentMatch?_eq (h : CrlfVersion d e) (hle : line ≤ d.lineCount) :
    e.dedentMatch? line = (d.dedentMatch? line).map d.text.crlfOffset := by
  rw [Document.dedentMatch?_eq, Document.dedentMatch?_eq,
    h.shifted.dedentHeader?_eq hle (h.indentation_eq line), h.map_indentationEnd]

theorem electricMatch?_eq (h : CrlfVersion d e) (hone : 1 ≤ line) (hle : line ≤ d.lineCount) :
    e.electricMatch? line = (d.electricMatch? line).map d.text.crlfOffset := by
  rw [Document.electricMatch?_eq, Document.electricMatch?_eq,
    h.shifted.electricHeader?_eq hone hle (h.indentation_eq line), h.map_indentationEnd]

theorem sameOutcome_electricDedent (h : CrlfVersion d e) (line : Nat) :
    SameOutcome (d.electricDedent line) (e.electricDedent line) := by
  rw [Document.electricDedent, Document.electricDedent, h.checkLine_eq]
  by_cases hline : 1 ≤ line ∧ line ≤ d.lineCount
  · rw [Document.checkLine_of_mem hline, h.electricMatch?_eq hline.1 hline.2]
    cases hmatch : d.electricMatch? line with
    | none => exact .done false h
    | some header =>
      have hcolumn := h.indentationAt_eq (Document.isBoundary_of_electricMatch? hmatch)
      dsimp only [Option.map_some]
      rw [hcolumn]
      exact h.sameOutcome_setIndentation line _
  · rw [Document.checkLine_of_not_mem hline]
    exact .refused _

end CrlfVersion

end Offside
