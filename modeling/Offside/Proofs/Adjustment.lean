import Offside.Proofs.IndentLines
import Offside.Proofs.Reindent

/-!
# Operations that change indentation

All operations that change indentation are refused for reasons that can be read off the document
beforehand: a line that does not exist, a region in the wrong order, a line that cannot be moved so
far to the left.  Once such a reason is ruled out every edit that an operation makes succeeds, so
none of them stops half-way.

* `Adjustment`, `Document.adjust`: the operations;
* `sameOutline_adjust`: an adjustment keeps the outline;
* `LineRefused`, `RegionRefused`, `ShiftRefused`, `adjust_eq_error_iff`: why one is refused;
* `InPlace`, `Adjustment.inPlace`: the operations on a document that keeps what has been done to it
  when a later edit is refused;
* `adjust_all_or_nothing`.
-/

namespace Offside

/-- The operations that change indentation. -/
inductive Adjustment
  | setIndentation (line column : Nat)
  | shiftRight (start stop : Nat) (count : Option Nat)
  | shiftLeft (start stop : Nat) (count : Option Nat)
  | reindent (start stop : Nat)
  | electricDedent (line : Nat)
  | indentLine (line : Nat) (previous : Option IndentCycle)

namespace Document

/-- The document after an operation. -/
def adjust (d : Document) : Adjustment → Except EditError Document
  | .setIndentation line column => (·.2) <$> d.setIndentation line column
  | .shiftRight start stop count => (·.2) <$> d.shiftRight start stop count
  | .shiftLeft start stop count => (·.2) <$> d.shiftLeft start stop count
  | .reindent start stop => (·.2) <$> d.reindent start stop
  | .electricDedent line => (·.2) <$> d.electricDedent line
  | .indentLine line previous => (·.2) <$> d.indentLine line previous

variable {d d' : Document} {line start stop : Nat} {err : EditError}

/-! ### Checks -/

theorem checkLine_of_mem (h : 1 ≤ line ∧ line ≤ d.lineCount) : d.checkLine line = .ok () :=
  if_pos (Buffer.hasLine_iff.2 h)

theorem checkLine_of_not_mem (h : ¬ (1 ≤ line ∧ line ≤ d.lineCount)) :
    d.checkLine line = .error (.lineOutOfRange line d.lineCount) :=
  if_neg fun hline => h (Buffer.hasLine_iff.1 hline)

/-- A line is refused if it does not exist. -/
def LineRefused (d : Document) (line : Nat) (err : EditError) : Prop :=
  ¬ (1 ≤ line ∧ line ≤ d.lineCount) ∧ err = .lineOutOfRange line d.lineCount

/-- A region is refused if its bounds are in the wrong order, else if its first line does not exist,
else if its last line does not. -/
def RegionRefused (d : Document) (start stop : Nat) (err : EditError) : Prop :=
  stop < start ∧ err = .invalidRegion start stop ∨
    start ≤ stop ∧ d.LineRefused start err ∨
    start ≤ stop ∧ (1 ≤ start ∧ start ≤ d.lineCount) ∧ d.LineRefused stop err

/-- A shift to the left is refused for its region, or for the first line of it that is not blank and
is indented by less. -/
def ShiftRefused (d : Document) (start stop count : Nat) (err : EditError) : Prop :=
  d.RegionRefused start stop err ∨
    (1 ≤ start ∧ start ≤ stop ∧ stop ≤ d.lineCount) ∧
      ∃ line, start ≤ line ∧ line ≤ stop ∧ d.buffer.isBlank line = false ∧
        d.buffer.indentation line < count ∧
        (∀ k, start ≤ k → k < line →
          d.buffer.isBlank k = true ∨ count ≤ d.buffer.indentation k) ∧
        err = .shiftTooFar line (d.buffer.indentation line) count

/-- Why an operation is refused. -/
def Refused (d : Document) : Adjustment → EditError → Prop
  | .setIndentation line _ => d.LineRefused line
  | .shiftRight start stop _ => d.RegionRefused start stop
  | .shiftLeft start stop count => d.ShiftRefused start stop (count.getD d.indentUnit)
  | .reindent start stop => d.RegionRefused start stop
  | .electricDedent line => d.LineRefused line
  | .indentLine line _ => d.LineRefused line

theorem RegionRefused.not_of_edits (h : d.RegionRefused start stop err) :
    (∀ span size, err ≠ .spanOutOfBounds span size) ∧
      ∀ first second, err ≠ .overlappingEdits first second := by
  rcases h with ⟨-, rfl⟩ | ⟨-, -, rfl⟩ | ⟨-, -, -, rfl⟩
  all_goals exact ⟨nofun, nofun⟩

/-- No operation is refused for the edits that it makes. -/
theorem Refused.not_of_edits {a : Adjustment} (h : d.Refused a err) :
    (∀ span size, err ≠ .spanOutOfBounds span size) ∧
      ∀ first second, err ≠ .overlappingEdits first second := by
  cases a with
  | setIndentation | electricDedent | indentLine =>
    obtain ⟨-, rfl⟩ := h
    exact ⟨nofun, nofun⟩
  | shiftRight | reindent => exact RegionRefused.not_of_edits h
  | shiftLeft start stop count =>
    rcases h with h | ⟨-, line, -, -, -, -, -, rfl⟩
    · exact h.not_of_edits
    · exact ⟨nofun, nofun⟩

theorem checkRegion_of_lt (h : stop < start) :
    d.checkRegion start stop = .error (.invalidRegion start stop) := by
  rw [checkRegion, if_pos h]
  rfl

theorem checkRegion_of_start (h : start ≤ stop) (hstart : ¬ (1 ≤ start ∧ start ≤ d.lineCount)) :
    d.checkRegion start stop = .error (.lineOutOfRange start d.lineCount) := by
  rw [checkRegion, if_neg (by omega), checkLine_of_not_mem hstart]
  rfl

theorem checkRegion_of_stop (h : start ≤ stop) (hstart : 1 ≤ start ∧ start ≤ d.lineCount)
    (hstop : ¬ (1 ≤ stop ∧ stop ≤ d.lineCount)) :
    d.checkRegion start stop = .error (.lineOutOfRange stop d.lineCount) := by
  rw [checkRegion, if_neg (by omega), checkLine_of_mem hstart, checkLine_of_not_mem hstop]
  rfl

/-- A region is refused for one reason, or it consists of existing lines. -/
theorem checkRegion_cases (d : Document) (start stop : Nat) :
    (∃ err, d.checkRegion start stop = .error err ∧ ∀ e, d.RegionRefused start stop e ↔ e = err) ∨
    (d.checkRegion start stop = .ok () ∧ (1 ≤ start ∧ start ≤ stop ∧ stop ≤ d.lineCount) ∧
      ∀ e, ¬ d.RegionRefused start stop e) := by
  unfold RegionRefused LineRefused
  rcases Nat.lt_or_ge stop start with hlt | hle
  · refine .inl ⟨_, checkRegion_of_lt hlt, fun e => ?_⟩
    simp [hlt, Nat.not_le.2 hlt]
  by_cases hstart : 1 ≤ start ∧ start ≤ d.lineCount
  · by_cases hstop : 1 ≤ stop ∧ stop ≤ d.lineCount
    · refine .inr ⟨checkRegion_of_le hstart.1 hle hstop.2, ⟨hstart.1, hle, hstop.2⟩, fun e => ?_⟩
      simp [hstart, hstop, Nat.not_lt.2 hle]
    · refine .inl ⟨_, checkRegion_of_stop hle hstart hstop, fun e => ?_⟩
      simp [hstart, hstop, hle, Nat.not_lt.2 hle]
  · refine .inl ⟨_, checkRegion_of_start hle hstart, fun e => ?_⟩
    simp [hstart, hle, Nat.not_lt.2 hle]

theorem mem_of_checkRegion (h : d.checkRegion start stop = .ok ()) :
    1 ≤ start ∧ start ≤ stop ∧ stop ≤ d.lineCount := by
  rcases d.checkRegion_cases start stop with ⟨err, hcheck, -⟩ | ⟨-, hregion, -⟩
  · rw [h] at hcheck
    cases hcheck
  · exact hregion

/-! ### One line -/

/-- The indentation of an existing line can always be set. -/
theorem exists_setIndentation (hline : 1 ≤ line ∧ line ≤ d.lineCount) (column : Nat) :
    ∃ changed d', d.setIndentation line column = .ok (changed, d') ∧ SameOutline d d' := by
  obtain ⟨above, row, below, hrows, rfl⟩ := Buffer.exists_rows hline.1 hline.2
  obtain ⟨d', hset, hrows', -⟩ := setIndentation_of_rows hrows column
  exact ⟨_, d', hset, sameOutline_setIndentation (d.isIndentation_written column) hrows hrows'⟩

/-- On an existing line electric dedent does nothing or sets the line's indentation. -/
theorem electricDedent_cases (hline : 1 ≤ line ∧ line ≤ d.lineCount) :
    d.electricMatch? line = none ∧ d.electricDedent line = .ok (false, d) ∨
    ∃ header, d.electricMatch? line = some header ∧
      d.electricDedent line = d.setIndentation line (d.buffer.indentationAt header) := by
  rw [electricDedent, checkLine_of_mem hline]
  cases hmatch : d.electricMatch? line with
  | none => exact .inl ⟨rfl, rfl⟩
  | some header => exact .inr ⟨header, rfl, rfl⟩

/-! ### Regions -/

theorem pairwise_regionLines (d : Document) (start stop : Nat) :
    (d.regionLines start stop).Pairwise (· < ·) :=
  List.Pairwise.filter _ List.pairwise_lt_range'

theorem mem_regionLines (hregion : 1 ≤ start ∧ start ≤ stop ∧ stop ≤ d.lineCount) :
    ∀ l ∈ d.regionLines start stop, 1 ≤ l ∧ l ≤ d.lineCount := by
  intro l hl
  have := List.mem_range'_1.1 (List.mem_of_mem_filter hl)
  omega

/-- In a region of existing lines all lines that are not blank can be moved at once. -/
theorem exists_apply_regionLines (hregion : 1 ≤ start ∧ start ≤ stop ∧ stop ≤ d.lineCount)
    (column : Nat → Nat) :
    ∃ n d', d.apply ((d.regionLines start stop).map fun l => d.indentationEdit l (column l)) =
        .ok (n, d') ∧ SameOutline d d' := by
  have hsorted := d.pairwise_regionLines start stop
  have hlines := mem_regionLines hregion
  obtain ⟨d', happly, -⟩ := apply_indentationEdits column hsorted hlines
  exact ⟨_, d', happly, sameOutline_apply column hsorted hlines happly⟩

theorem shiftRight_of_checkRegion (h : d.checkRegion start stop = .ok ()) (count : Option Nat) :
    d.shiftRight start stop count =
      d.apply ((d.regionLines start stop).map fun l =>
        d.indentationEdit l (d.buffer.indentation l + count.getD d.indentUnit)) := by
  rw [shiftRight, h]
  rfl

/-- The first line of a region that cannot be moved so far to the left. -/
theorem find?_regionLines_eq_some {count : Nat} :
    ((d.regionLines start stop).find? fun l => decide (d.buffer.indentation l < count)) =
        some line ↔
      start ≤ line ∧ line ≤ stop ∧ d.buffer.isBlank line = false ∧
        d.buffer.indentation line < count ∧
        ∀ k, start ≤ k → k < line → d.buffer.isBlank k = true ∨ count ≤ d.buffer.indentation k := by
  rw [regionLines, List.find?_filter, List.find?_range'_eq_some, List.mem_range'_1]
  simp only [Bool.not_eq_true', decide_eq_true_eq, decide_eq_false_iff_not, not_and, not_lt]
  constructor
  · rintro ⟨⟨hblank, hlt⟩, ⟨hlo, hhi⟩, hfirst⟩
    refine ⟨hlo, by omega, hblank, hlt, fun k hk hkl => ?_⟩
    by_cases hb : d.buffer.isBlank k = true
    · exact .inl hb
    · exact .inr (hfirst k hk hkl (by simpa using hb))
  · rintro ⟨hlo, hhi, hblank, hlt, hfirst⟩
    refine ⟨⟨hblank, hlt⟩, ⟨hlo, by omega⟩, fun k hk hkl hb => ?_⟩
    rcases hfirst k hk hkl with h | h
    · rw [hb] at h
      cases h
    · exact h

/-- In a region of existing lines a shift to the left is refused for the first line that cannot be
moved so far, and otherwise all lines that are not blank are moved. -/
theorem shiftLeft_of_checkRegion (h : d.checkRegion start stop = .ok ()) (count : Option Nat) :
    d.shiftLeft start stop count =
      match (d.regionLines start stop).find? fun l =>
          decide (d.buffer.indentation l < count.getD d.indentUnit) with
      | some l => .error (.shiftTooFar l (d.buffer.indentation l) (count.getD d.indentUnit))
      | none => d.apply ((d.regionLines start stop).map fun l =>
          d.indentationEdit l (d.buffer.indentation l - count.getD d.indentUnit)) := by
  rw [shiftLeft, h]
  rfl

/-- Reindenting lines is reindenting the first and then the rest. -/
theorem reindentLines_cons_eq_ok {rest : List Nat} {n : Nat}
    (h : d.reindentLines (line :: rest) = .ok (n, d')) :
    ∃ changed e m, d.reindentLine line = .ok (changed, e) ∧ e.reindentLines rest = .ok (m, d') := by
  rw [reindentLines] at h
  cases hline : d.reindentLine line with
  | error err =>
    rw [hline] at h
    cases h
  | ok first =>
    rw [hline] at h
    change (first.2.reindentLines rest >>= fun r =>
      pure (if first.1 then r.1 + 1 else r.1, r.2)) = _ at h
    cases hrest : first.2.reindentLines rest with
    | error err =>
      rw [hrest] at h
      cases h
    | ok last =>
      rw [hrest] at h
      cases h
      exact ⟨first.1, first.2, last.1, rfl, hrest⟩

theorem reindent_of_checkRegion (h : d.checkRegion start stop = .ok ()) :
    d.reindent start stop = d.reindentLines (List.range' start (stop + 1 - start)) := by
  rw [reindent, h]
  rfl

/-! ### What operations keep, and why they are refused -/

/-- Whether a result is a refusal for the one reason that there is, or a document with the same
outline if there is none. -/
def Decides (d : Document) (refused : EditError → Prop) (result : Except EditError Document) :
    Prop :=
  (∃ err, result = .error err ∧ ∀ e, refused e ↔ e = err) ∨
    ∃ d', result = .ok d' ∧ SameOutline d d' ∧ ∀ e, ¬ refused e

/-- An operation on a line that succeeds if the line exists. -/
theorem decides_line {α : Type} {result : Except EditError (α × Document)}
    (hok : 1 ≤ line ∧ line ≤ d.lineCount → ∃ a d', result = .ok (a, d') ∧ SameOutline d d')
    (herr : ∀ err, d.checkLine line = .error err → result = .error err) :
    d.Decides (d.LineRefused line) ((·.2) <$> result) := by
  by_cases hline : 1 ≤ line ∧ line ≤ d.lineCount
  · obtain ⟨a, d', hresult, hsame⟩ := hok hline
    exact .inr ⟨d', by rw [hresult]; rfl, hsame, fun e he => he.1 hline⟩
  · refine .inl ⟨.lineOutOfRange line d.lineCount, ?_, fun e => ?_⟩
    · rw [herr _ (checkLine_of_not_mem hline)]
      rfl
    · simp [LineRefused, hline]

/-- An operation on a region that succeeds if the lines of the region exist. -/
theorem decides_region {result : Except EditError (Nat × Document)}
    (hok : d.checkRegion start stop = .ok () → 1 ≤ start ∧ start ≤ stop ∧ stop ≤ d.lineCount →
      ∃ n d', result = .ok (n, d') ∧ SameOutline d d')
    (herr : ∀ err, d.checkRegion start stop = .error err → result = .error err) :
    d.Decides (d.RegionRefused start stop) ((·.2) <$> result) := by
  rcases d.checkRegion_cases start stop with ⟨err, hcheck, hrefused⟩ | ⟨hcheck, hregion, hnone⟩
  · refine .inl ⟨err, ?_, hrefused⟩
    rw [herr err hcheck]
    rfl
  · obtain ⟨n, d', hresult, hsame⟩ := hok hcheck hregion
    exact .inr ⟨d', by rw [hresult]; rfl, hsame, hnone⟩

theorem decides_shiftLeft (d : Document) (start stop : Nat) (count : Option Nat) :
    d.Decides (d.ShiftRefused start stop (count.getD d.indentUnit))
      ((·.2) <$> d.shiftLeft start stop count) := by
  rcases d.checkRegion_cases start stop with ⟨err, hcheck, hrefused⟩ | ⟨hcheck, hregion, hnone⟩
  · refine .inl ⟨err, by rw [shiftLeft, hcheck]; rfl, fun e => ?_⟩
    rw [ShiftRefused, hrefused]
    refine ⟨fun h => h.elim id fun h => ?_, .inl⟩
    rw [checkRegion_of_le h.1.1 h.1.2.1 h.1.2.2] at hcheck
    cases hcheck
  · rw [shiftLeft_of_checkRegion hcheck]
    cases hfind : (d.regionLines start stop).find? fun l =>
        decide (d.buffer.indentation l < count.getD d.indentUnit) with
    | some line =>
      refine .inl ⟨_, rfl, fun e => ?_⟩
      constructor
      · -- the line that is named is the first one, whichever way it is found
        rintro (h | ⟨-, l, hlo, hhi, hblank, hlt, hfirst, rfl⟩)
        · exact absurd h (hnone e)
        · have hl := find?_regionLines_eq_some.2 ⟨hlo, hhi, hblank, hlt, hfirst⟩
          rw [hfind] at hl
          rw [Option.some.inj hl]
      · rintro rfl
        obtain ⟨hlo, hhi, hblank, hlt, hfirst⟩ := find?_regionLines_eq_some.1 hfind
        exact .inr ⟨hregion, line, hlo, hhi, hblank, hlt, hfirst, rfl⟩
    | none =>
      obtain ⟨n, d', happly, hsame⟩ := exists_apply_regionLines hregion fun l =>
        d.buffer.indentation l - count.getD d.indentUnit
      refine .inr ⟨d', ?_, hsame, fun e => ?_⟩
      · show (·.2) <$> d.apply _ = _
        rw [happly]
        rfl
      · rintro (h | ⟨-, l, hlo, hhi, hblank, hlt, hfirst, -⟩)
        · exact hnone e h
        · rw [find?_regionLines_eq_some.2 ⟨hlo, hhi, hblank, hlt, hfirst⟩] at hfind
          cases hfind

/-- An operation is refused for the one reason that there is; if there is none it succeeds and keeps
the outline. -/
theorem decides_adjust (d : Document) (a : Adjustment) : d.Decides (d.Refused a) (d.adjust a) := by
  cases a with
  | setIndentation line column =>
    refine decides_line (fun hline => exists_setIndentation hline column) fun err herr => ?_
    rw [setIndentation, herr]
    rfl
  | shiftRight start stop count =>
    refine decides_region (fun hcheck hregion => ?_) fun err herr => ?_
    · rw [shiftRight_of_checkRegion hcheck]
      exact exists_apply_regionLines hregion _
    · rw [shiftRight, herr]
      rfl
  | shiftLeft start stop count => exact d.decides_shiftLeft start stop count
  | reindent start stop =>
    refine decides_region (fun _ hregion => ?_) fun err herr => ?_
    · obtain ⟨n, d', hreindent, h⟩ := reindent_of_le hregion.1 hregion.2.1 hregion.2.2
      exact ⟨n, d', hreindent, h.outline⟩
    · rw [reindent, herr]
      rfl
  | electricDedent line =>
    refine decides_line (fun hline => ?_) fun err herr => ?_
    · rcases electricDedent_cases hline with ⟨-, h⟩ | ⟨header, -, h⟩
      · exact ⟨false, d, h, .refl d⟩
      · rw [h]
        exact exists_setIndentation hline _
    · rw [electricDedent, herr]
      rfl
  | indentLine line previous =>
    refine decides_line (fun hline => ?_) fun err herr => ?_
    · obtain ⟨changed, d', hset, hsame⟩ :=
        exists_setIndentation hline (d.nextLevels line previous).level
      refine ⟨⟨line, d.nextLevels line previous, d'.revision⟩, d', ?_, hsame⟩
      rw [indentLine, checkLine_of_mem hline]
      show (d.setIndentation line (d.nextLevels line previous).level >>= fun r =>
        (pure (⟨line, d.nextLevels line previous, r.2.revision⟩, r.2) :
          Except EditError (IndentCycle × Document))) = _
      rw [hset]
      rfl
    · rw [indentLine, herr]
      rfl

theorem adjust_eq_error_iff {a : Adjustment} : d.adjust a = .error err ↔ d.Refused a err := by
  rcases d.decides_adjust a with ⟨e, he, hrefused⟩ | ⟨d', hok, -, hnone⟩
  · rw [he, hrefused]
    exact ⟨fun h => (Except.error.inj h).symm, fun h => by rw [h]⟩
  · rw [hok]
    refine ⟨fun h => ?_, fun h => absurd h (hnone err)⟩
    cases h

/-- An operation keeps the outline. -/
theorem sameOutline_adjust {a : Adjustment} (h : d.adjust a = .ok d') : SameOutline d d' := by
  rcases d.decides_adjust a with ⟨e, he, -⟩ | ⟨d'', hok, hsame, -⟩
  · rw [he] at h
    cases h
  · rw [hok] at h
    obtain rfl := Except.ok.inj h
    exact hsame

end Document

/-! ### In place -/

/-- Operations on a document in place.  When one of the edits that an operation makes is refused,
those before it stay made. -/
abbrev InPlace := ExceptT EditError (StateM Document) Unit

namespace InPlace

/-- Whether an operation is refused, and the document that it leaves. -/
def on (operation : InPlace) (d : Document) : Except EditError Unit × Document := operation d

/-- Goes on only if a check has been passed. -/
def check (passed : Except EditError Unit) : InPlace := MonadExcept.ofExcept passed

/-- Edits, of which none is made if they are refused. -/
def apply (edits : EditSet) : InPlace := do
  match (← get).apply edits with
  | .ok (_, d) => set d
  | .error err => throw err

/-- Gives a line `column` columns of indentation. -/
def setIndentation (line column : Nat) : InPlace := do
  let d ← get
  check (d.checkLine line)
  apply [d.indentationEdit line column]

/-- Reindents a line, unless it is blank or starts in a string. -/
def reindentLine (line : Nat) : InPlace := do
  let d ← get
  if d.buffer.isBlank line || (d.lineStartState line).inString then return
  else setIndentation line (d.targetColumn line)

/-- Reindents lines one after the other, each by what has become of the lines before it. -/
def reindentLines : List Nat → InPlace
  | [] => return
  | line :: rest => do
    reindentLine line
    reindentLines rest

end InPlace

/-- The operations that change indentation, in place. -/
def Adjustment.inPlace : Adjustment → InPlace
  | .setIndentation line column => InPlace.setIndentation line column
  | .shiftRight start stop count => do
    let d ← get
    InPlace.check (d.checkRegion start stop)
    InPlace.apply ((d.regionLines start stop).map fun l =>
      d.indentationEdit l (d.buffer.indentation l + count.getD d.indentUnit))
  | .shiftLeft start stop count => do
    let d ← get
    InPlace.check (d.checkRegion start stop)
    let count := count.getD d.indentUnit
    match (d.regionLines start stop).find? fun l => decide (d.buffer.indentation l < count) with
    | some l => throw (.shiftTooFar l (d.buffer.indentation l) count)
    | none => InPlace.apply ((d.regionLines start stop).map fun l =>
        d.indentationEdit l (d.buffer.indentation l - count))
  | .reindent start stop => do
    let d ← get
    InPlace.check (d.checkRegion start stop)
    InPlace.reindentLines (List.range' start (stop + 1 - start))
  | .electricDedent line => do
    let d ← get
    InPlace.check (d.checkLine line)
    match d.electricMatch? line with
    | none => return
    | some header => InPlace.setIndentation line (d.buffer.indentationAt header)
  | .indentLine line previous => do
    let d ← get
    InPlace.check (d.checkLine line)
    InPlace.setIndentation line (d.nextLevels line previous).level

namespace InPlace

variable {d : Document}

/-- What is left of a document after an operation that is refused as a whole or made as a whole. -/
def outcome (d : Document) : Except EditError Document → Except EditError Unit × Document
  | .ok d' => (.ok (), d')
  | .error err => (.error err, d)

theorem apply_on (edits : EditSet) (d : Document) :
    (apply edits).on d = outcome d ((·.2) <$> d.apply edits) := by
  show on (match d.apply edits with
    | .ok (_, d) => set d
    | .error err => throw err) d = _
  cases d.apply edits with
  | ok result => rfl
  | error err => rfl

theorem get_bind_on (f : Document → InPlace) : on (get >>= f) d = (f d).on d := rfl

/-- A check, and what comes after it. -/
theorem check_bind_on {passed : Except EditError Unit} {p : InPlace}
    {result : Except EditError Document} (h : passed = .ok () → p.on d = outcome d result) :
    on (check passed >>= fun _ => p) d = outcome d (passed >>= fun _ => result) := by
  cases passed with
  | error err => rfl
  | ok _ => exact h rfl

/-- What comes after an operation that is made. -/
theorem bind_on_of_ok {p : InPlace} {d' : Document} (h : p.on d = (.ok (), d')) (q : InPlace) :
    on (p >>= fun _ => q) d = q.on d' := by
  show ExceptT.bindCont (m := StateM Document) (fun _ => q) (p.on d).1 (p.on d).2 = _
  rw [h]
  rfl

theorem setIndentation_on (line column : Nat) (d : Document) :
    (setIndentation line column).on d = outcome d ((·.2) <$> d.setIndentation line column) := by
  rw [setIndentation, get_bind_on, Document.setIndentation, map_bind]
  refine check_bind_on fun _ => (apply_on _ d).trans ?_
  cases d.apply [d.indentationEdit line column] with
  | error err => rfl
  | ok result => rfl

theorem reindentLine_on (line : Nat) (d : Document) :
    (reindentLine line).on d = outcome d ((·.2) <$> d.reindentLine line) := by
  show on (if d.buffer.isBlank line || (d.lineStartState line).inString then pure ()
    else setIndentation line (d.targetColumn line)) d = _
  rw [Document.reindentLine]
  split
  · rfl
  · exact setIndentation_on line _ d

/-- Lines that are all reindented are so in place. -/
theorem reindentLines_on_of_ok {lines : List Nat} {d' : Document} {n : Nat}
    (h : d.reindentLines lines = .ok (n, d')) : (reindentLines lines).on d = (.ok (), d') := by
  induction lines generalizing d n with
  | nil =>
    cases h
    rfl
  | cons line rest ih =>
    obtain ⟨changed, e, m, hline, hrest⟩ := Document.reindentLines_cons_eq_ok h
    have hfirst : (reindentLine line).on d = (.ok (), e) := by
      rw [reindentLine_on, hline]
      rfl
    rw [reindentLines, bind_on_of_ok hfirst, ih hrest]

end InPlace

/-- An operation is refused before it has changed anything, or is made. -/
theorem Adjustment.inPlace_on (a : Adjustment) (d : Document) :
    a.inPlace.on d = InPlace.outcome d (d.adjust a) := by
  cases a with
  | setIndentation line column => exact InPlace.setIndentation_on line column d
  | shiftRight start stop count =>
    rw [inPlace, InPlace.get_bind_on, Document.adjust, Document.shiftRight, map_bind]
    exact InPlace.check_bind_on fun _ => InPlace.apply_on _ d
  | shiftLeft start stop count =>
    rw [inPlace, InPlace.get_bind_on, Document.adjust, Document.shiftLeft, map_bind]
    refine InPlace.check_bind_on fun _ => ?_
    cases h : (d.regionLines start stop).find? fun l =>
        decide (d.buffer.indentation l < count.getD d.indentUnit) with
    | some l =>
      dsimp only
      rw [h]
      rfl
    | none =>
      dsimp only
      rw [h]
      exact InPlace.apply_on _ d
  | reindent start stop =>
    rw [inPlace, InPlace.get_bind_on, Document.adjust, Document.reindent, map_bind]
    refine InPlace.check_bind_on fun hcheck => ?_
    have hregion := Document.mem_of_checkRegion hcheck
    obtain ⟨n, d', hreindent, -⟩ := Document.reindent_of_le hregion.1 hregion.2.1 hregion.2.2
    rw [Document.reindent_of_checkRegion hcheck] at hreindent
    rw [hreindent, InPlace.reindentLines_on_of_ok hreindent]
    rfl
  | electricDedent line =>
    rw [inPlace, InPlace.get_bind_on, Document.adjust, Document.electricDedent, map_bind]
    refine InPlace.check_bind_on fun _ => ?_
    cases d.electricMatch? line with
    | none => rfl
    | some header => exact InPlace.setIndentation_on line _ d
  | indentLine line previous =>
    rw [inPlace, InPlace.get_bind_on, Document.adjust, Document.indentLine, map_bind]
    refine InPlace.check_bind_on fun _ => (InPlace.setIndentation_on line _ d).trans ?_
    dsimp only
    cases d.setIndentation line (d.nextLevels line previous).level with
    | error err => rfl
    | ok result => rfl

/-- An operation that changes indentation is refused exactly for a line that does not exist, a
region in the wrong order or, when it moves lines to the left, a line that cannot be moved so far;
never for the edits that it makes.  In place it then leaves the document as it was, though it may
consist of many edits, and otherwise it makes all of them. -/
theorem adjust_all_or_nothing (d : Document) (a : Adjustment) :
    (∀ err, d.adjust a = .error err ↔ d.Refused a err) ∧
    (∀ err, d.adjust a = .error err →
      (∀ span size, err ≠ .spanOutOfBounds span size) ∧
        ∀ first second, err ≠ .overlappingEdits first second) ∧
    a.inPlace.on d = match d.adjust a with
      | .ok d' => (.ok (), d')
      | .error err => (.error err, d) := by
  refine ⟨fun err => Document.adjust_eq_error_iff, fun err h => ?_, a.inPlace_on d⟩
  exact (Document.adjust_eq_error_iff.1 h).not_of_edits

end Offside
