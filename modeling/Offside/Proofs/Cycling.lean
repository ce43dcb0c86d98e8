import Mathlib.Tactic.LinearCombination
import Offside.Proofs.Revision
import Offside.Proofs.Untouched

/-!
# Cycling through the levels of a line

A line that is asked to be indented again and again goes from its computed column through the stops
before it to the margin, and then around again.  What is remembered between two requests is a cycle,
which is told by the revision from one that the document has left behind.

* `Levels.IsLadder`, `Levels.isLadder_ofIndentation`: the stops;
* `Levels.turn`, `Levels.cycle_turn`: the stop that a request comes to;
* `Document.indentLine_of_rows`: one request;
* `Document.Cycling`, `Document.Cycling.atTurn`: any number of requests, with look-ups and idle edits
  between them;
* `indentLine_cycles`.
-/

namespace Offside

/-! ### Stops -/

namespace Levels

/-- Stops from the margin to a column: the multiples of a unit on the way, and the column. -/
structure IsLadder (stops : List Nat) (column unit : Nat) : Prop where
  increasing : stops.Pairwise (· < ·)
  first : stops.head? = some 0
  last : stops.getLast? = some column
  mem_iff : ∀ n, n ∈ stops ↔ n ≤ column ∧ unit ∣ n ∨ n = column

section Stops

variable {column unit : Nat}

/-- The multiples of a unit up to a column. -/
theorem mem_multiples (hunit : 0 < unit) {n : Nat} :
    n ∈ (List.range (column / unit + 1)).map (· * unit) ↔ n ≤ column ∧ unit ∣ n := by
  rw [List.mem_map]
  constructor
  · rintro ⟨i, hi, rfl⟩
    have hle : i ≤ column / unit := by
      have := List.mem_range.1 hi
      omega
    exact ⟨(Nat.le_div_iff_mul_le hunit).1 hle, Nat.dvd_mul_left unit i⟩
  · rintro ⟨hle, i, rfl⟩
    have hi : i ≤ column / unit := (Nat.le_div_iff_mul_le hunit).2 (by rwa [Nat.mul_comm])
    exact ⟨i, List.mem_range.2 (by omega), Nat.mul_comm i unit⟩

theorem pairwise_multiples (hunit : 0 < unit) (steps : Nat) :
    ((List.range steps).map (· * unit)).Pairwise (· < ·) :=
  List.pairwise_lt_range.map _ fun _ _ hlt => Nat.mul_lt_mul_of_pos_right hlt hunit

/-- The stops of an indentation end with it, and the last one is selected. -/
theorem ofIndentation_eq (column unit : Nat) :
    ∃ init, Levels.ofIndentation column unit = ⟨init ++ [column], init.length⟩ := by
  by_cases hexact : column = column / unit * unit
  · refine ⟨(List.range (column / unit)).map (· * unit), ?_⟩
    simp [ofIndentation, List.range_succ, ← hexact]
  · refine ⟨(List.range (column / unit + 1)).map (· * unit), ?_⟩
    simp [ofIndentation, if_neg hexact]

theorem isLadder_ofIndentation (hunit : 0 < unit) :
    IsLadder (ofIndentation column unit).stops column unit := by
  obtain ⟨init, hinit⟩ := ofIndentation_eq column unit
  have hlast : (ofIndentation column unit).stops.getLast? = some column := by
    rw [hinit, List.getLast?_concat]
  by_cases hexact : column = column / unit * unit
  · -- the column is the last of the multiples
    have hstops : (ofIndentation column unit).stops =
        (List.range (column / unit + 1)).map (· * unit) := if_pos hexact
    refine ⟨hstops ▸ pairwise_multiples hunit _, ?_, hlast, fun n => ?_⟩
    · rw [hstops, List.range_succ_eq_map]
      simp
    · rw [hstops, mem_multiples hunit]
      refine ⟨.inl, ?_⟩
      rintro (hn | rfl)
      · exact hn
      · exact ⟨Nat.le_refl n, Dvd.intro_left _ hexact.symm⟩
  · have hstops : (ofIndentation column unit).stops =
        (List.range (column / unit + 1)).map (· * unit) ++ [column] := if_neg hexact
    refine ⟨?_, ?_, hlast, fun n => ?_⟩
    · rw [hstops, List.pairwise_append]
      refine ⟨pairwise_multiples hunit _, List.pairwise_singleton _ _, fun n hn c hc => ?_⟩
      obtain ⟨hle, i, rfl⟩ := (mem_multiples hunit).1 hn
      rw [List.mem_singleton.1 hc]
      refine Nat.lt_of_le_of_ne hle fun heq => hexact ?_
      rw [← heq, Nat.mul_div_cancel_left i hunit, Nat.mul_comm]
    · rw [hstops, List.range_succ_eq_map]
      simp
    · rw [hstops, List.mem_append, mem_multiples hunit, List.mem_singleton]

end Stops

/-! ### Turns -/

/-- The number of the stop that request `k` comes to if there are `m` stops: from the last one down
to the first and around again. -/
def turn (m k : Nat) : Nat := (((m : ℤ) - 1 - k) % m).toNat

theorem turn_eq {m : Nat} (hm : 0 < m) (k : Nat) : turn m k = m - 1 - k % m := by
  have hlt := Nat.mod_lt k hm
  have hk : (k : ℤ) = k % m + m * (k / m) := (Int.emod_add_mul_ediv k m).symm
  have hshift : (m : ℤ) - 1 - k = (m - 1 - k % m : ℤ) + m * -(k / m : ℤ) := by
    linear_combination -hk
  have hmod : ((m : ℤ) - 1 - k) % m = m - 1 - k % m := by
    rw [hshift, Int.add_mul_emod_self_left]
    exact Int.emod_eq_of_lt (by omega) (by omega)
  rw [turn, hmod]
  omega

theorem turn_lt {m : Nat} (hm : 0 < m) (k : Nat) : turn m k < m := by
  rw [turn_eq hm]
  omega

/-- The stop that follows is the one of the next request. -/
theorem cycle_turn {stops : List Nat} (h : 0 < stops.length) (k : Nat) :
    cycle stops (turn stops.length k) = turn stops.length (k + 1) := by
  have hlt := Nat.mod_lt k h
  rw [turn_eq h, turn_eq h, cycle, ← Nat.mod_add_mod k]
  by_cases hwrap : k % stops.length = stops.length - 1
  · -- from the first stop back to the last one
    have hnext : k % stops.length + 1 = stops.length := by omega
    rw [if_pos (.inl (by omega)), hnext, Nat.mod_self]
    rfl
  · have hnext : k % stops.length + 1 < stops.length := by omega
    rw [if_neg (by omega), Nat.mod_eq_of_lt hnext]
    omega

/-- Requests come to the same stop again after as many as there are stops. -/
theorem turn_add (m k : Nat) : turn m (k + m) = turn m k := by
  have hshift : (m : ℤ) - 1 - (k + m : Nat) = m - 1 - k + m * -1 := by
    push_cast
    linear_combination
  rw [turn, turn, hshift, Int.add_mul_emod_self_left]

end Levels

open Levels (turn)

namespace Document

variable {d e f : Document} {line : Nat}

theorem length_stops_pos (d : Document) (line : Nat) : 0 < (d.levels line).stops.length := by
  obtain ⟨init, hinit⟩ := Levels.ofIndentation_eq (d.computedIndentation line) d.indentUnit
  rw [levels, levelsBy, hinit]
  simp

/-- Without a cycle the selected level is the one of the first request, the computed column. -/
theorem current_levels (d : Document) (line : Nat) :
    (d.levels line).current = turn (d.levels line).stops.length 0 ∧
      (d.levels line).level = d.computedIndentation line := by
  obtain ⟨init, hinit⟩ := Levels.ofIndentation_eq (d.computedIndentation line) d.indentUnit
  rw [Levels.turn_eq (d.length_stops_pos line), levels, levelsBy, hinit]
  simp [Levels.level]

/-! ### One request -/

section Rows

variable {above below : List Text} {row : Text}

/-- A request succeeds, and gives the line the selected level as its indentation. -/
theorem indentLine_of_rows (h : d.text.rows = above ++ row :: below) (c : Option IndentCycle) :
    ∃ e, d.indentLine (above.length + 1) c =
        .ok (⟨above.length + 1, d.nextLevels (above.length + 1) c, e.revision⟩, e) ∧
      e.text.rows = above ++
        (d.written (d.nextLevels (above.length + 1) c).level ++ row.afterIndentation) :: below ∧
      e.settings = d.settings := by
  obtain ⟨e, hset, hrows, hsettings, -⟩ :=
    setIndentation_of_rows h (d.nextLevels (above.length + 1) c).level
  refine ⟨e, ?_, hrows, hsettings⟩
  rw [indentLine, checkLine_of_mem ⟨by omega, Buffer.length_le_lineCount h⟩]
  show (d.setIndentation (above.length + 1) (d.nextLevels (above.length + 1) c).level >>= fun r =>
    pure ((⟨above.length + 1, d.nextLevels (above.length + 1) c, r.2.revision⟩ : IndentCycle),
      r.2)) = _
  rw [hset]
  rfl

end Rows

/-- Whether a cycle is not one that a document can go on with. -/
def IsStale (d : Document) (line : Nat) (previous : Option IndentCycle) : Prop :=
  ∀ c ∈ previous, c.line = line → c.revision ≠ d.revision

theorem nextLevels_of_isStale {previous : Option IndentCycle} (h : d.IsStale line previous) :
    d.nextLevels line previous = d.levels line := by
  cases previous with
  | none => rfl
  | some c => exact if_neg fun hsame => h c rfl hsame.1 hsame.2

/-- A request with a stale cycle gives the line its computed column. -/
theorem indentLine_of_isStale (hlo : 1 ≤ line) (hhi : line ≤ d.lineCount)
    {previous : Option IndentCycle} (h : d.IsStale line previous) :
    ∃ c e, d.indentLine line previous = .ok (c, e) ∧
      e.buffer.indentation line = d.computedIndentation line := by
  obtain ⟨above, row, below, hrows, rfl⟩ := Buffer.exists_rows (b := d.buffer) hlo hhi
  obtain ⟨e, hrequest, hrows', hsettings⟩ := indentLine_of_rows hrows previous
  rw [nextLevels_of_isStale h, (d.current_levels _).2] at hrows'
  exact ⟨_, e, hrequest, indentation_written hrows' hsettings⟩

/-! ### Runs -/

/-- A run in which a line is asked to be indented again and again, each time with the cycle that the
request before has returned.  Between the requests there may be look-ups, and edits that change
nothing.  The number is that of the requests so far. -/
inductive Cycling (d : Document) (line : Nat) (previous : Option IndentCycle) :
    Nat → Document → Option IndentCycle → Prop
  | start : Cycling d line previous 0 d previous
  | look {k : Nat} {e : Document} {c : Option IndentCycle} (offset : Nat) :
      Cycling d line previous k e c → Cycling d line previous k (e.cachedScannerAt offset).2 c
  | idle {k n : Nat} {e f : Document} {c : Option IndentCycle} {es : EditSet} :
      Cycling d line previous k e c → (∀ edit ∈ es, edit.isNoop e.buffer = true) →
      e.apply es = .ok (n, f) → Cycling d line previous k f c
  | request {k : Nat} {e f : Document} {c : Option IndentCycle} {c' : IndentCycle} :
      Cycling d line previous k e c → e.indentLine line c = .ok (c', f) →
      Cycling d line previous (k + 1) f (some c')

/-- The row of a line after a number of requests. -/
def turnRow (d : Document) (line : Nat) (row : Text) : Nat → Text
  | 0 => row
  | k + 1 =>
    let stops := (d.levels line).stops
    d.written (stops.getD (turn stops.length k) 0) ++ row.afterIndentation

theorem afterIndentation_turnRow (d : Document) (line : Nat) (row : Text) (k : Nat) :
    (d.turnRow line row k).afterIndentation = row.afterIndentation := by
  cases k with
  | zero => rfl
  | succ k =>
    rw [turnRow, Text.afterIndentation_append (d.isIndentation_written _),
      Text.afterIndentation_afterIndentation]

/-- Where a run is after a number of requests. -/
structure AtTurn (d : Document) (above : List Text) (row : Text) (below : List Text)
    (previous : Option IndentCycle) (k : Nat) (e : Document) (c : Option IndentCycle) : Prop where
  settings : e.settings = d.settings
  rows : e.text.rows = above ++ d.turnRow (above.length + 1) row k :: below
  cycle : k = 0 ∧ c = previous ∧ e.revision = d.revision ∨
    ∃ j, k = j + 1 ∧ c = some ⟨above.length + 1,
      ⟨(d.levels (above.length + 1)).stops,
        turn (d.levels (above.length + 1)).stops.length j⟩, e.revision⟩

namespace AtTurn

variable {above below : List Text} {row : Text} {previous c : Option IndentCycle} {k : Nat}

/-- The computed column does not depend on the indentation that the line has. -/
theorem computedIndentation_eq (hd : d.text.rows = above ++ row :: below)
    (h : AtTurn d above row below previous k e c) :
    e.computedIndentation (above.length + 1) = d.computedIndentation (above.length + 1) := by
  have hagree := AgreeAbove.of_rows h.rows hd (tabWidth_of_settings h.settings)
  refine hagree.computedIndentation_eq h.settings (Text.trimStart_of_afterIndentation ?_)
  rw [Buffer.lineText, Buffer.lineText, Buffer.line_of_rows h.rows, Buffer.line_of_rows hd,
    Line.afterIndentation_body_ofRow, Line.afterIndentation_body_ofRow, afterIndentation_turnRow]

theorem sameOutline (hd : d.text.rows = above ++ row :: below)
    (h : AtTurn d above row below previous k e c) : SameOutline d e := by
  rw [SameOutline, Text.outline, Text.outline, hd, h.rows, List.map_append, List.map_append,
    List.map_cons, List.map_cons, afterIndentation_turnRow]

/-- The levels of the next request. -/
theorem nextLevels_eq (hd : d.text.rows = above ++ row :: below)
    (hstale : d.IsStale (above.length + 1) previous)
    (h : AtTurn d above row below previous k e c) :
    e.nextLevels (above.length + 1) c = ⟨(d.levels (above.length + 1)).stops,
      turn (d.levels (above.length + 1)).stops.length k⟩ := by
  rcases h.cycle with ⟨rfl, rfl, hrevision⟩ | ⟨j, rfl, rfl⟩
  · have hstale' : e.IsStale (above.length + 1) c := by
      intro cycle hcycle hline
      rw [hrevision]
      exact hstale cycle hcycle hline
    have hlevels : e.levels (above.length + 1) = d.levels (above.length + 1) := by
      rw [levels, levels, levelsBy, levelsBy, h.computedIndentation_eq hd, indentUnit, indentUnit,
        h.settings]
    rw [nextLevels_of_isStale hstale', hlevels, ← (d.current_levels _).1]
  · rw [nextLevels, if_pos ⟨rfl, rfl⟩, Levels.cycled,
      Levels.cycle_turn (d.length_stops_pos (above.length + 1))]

/-- The next request succeeds and comes to the next turn. -/
theorem exists_request (hd : d.text.rows = above ++ row :: below)
    (hstale : d.IsStale (above.length + 1) previous)
    (h : AtTurn d above row below previous k e c) :
    ∃ c' f, e.indentLine (above.length + 1) c = .ok (c', f) ∧
      AtTurn d above row below previous (k + 1) f (some c') := by
  obtain ⟨f, hrequest, hrows, hsettings⟩ := indentLine_of_rows h.rows c
  rw [h.nextLevels_eq hd hstale] at hrequest hrows
  refine ⟨_, f, hrequest, hsettings.trans h.settings, ?_, .inr ⟨k, rfl, rfl⟩⟩
  rw [hrows, afterIndentation_turnRow, turnRow, written, written, h.settings, Levels.level]

/-- The column of the line after a request. -/
theorem indentation_eq (h : AtTurn d above row below previous (k + 1) e c) :
    some (e.buffer.indentation (above.length + 1)) =
      (d.levels (above.length + 1)).stops[turn (d.levels (above.length + 1)).stops.length k]? := by
  have hlt := Levels.turn_lt (d.length_stops_pos (above.length + 1)) k
  rw [indentation_written h.rows h.settings, List.getElem?_eq_getElem hlt]
  simp [hlt]

/-- After as many requests as there are stops the text is the same again. -/
theorem text_eq {c' : Option IndentCycle} (h : AtTurn d above row below previous (k + 1) e c)
    (h' : AtTurn d above row below previous
      (k + 1 + (d.levels (above.length + 1)).stops.length) f c') : f.text = e.text := by
  have hk : k + 1 + (d.levels (above.length + 1)).stops.length =
      k + (d.levels (above.length + 1)).stops.length + 1 := by omega
  have hrows : f.text.rows = e.text.rows := by
    rw [h'.rows, h.rows, hk, turnRow, turnRow, Levels.turn_add]
  rw [← Text.flatten_rows f.text, hrows, Text.flatten_rows]

end AtTurn

/-- The state of every run. -/
theorem Cycling.atTurn {above below : List Text} {row : Text} {previous c : Option IndentCycle}
    {k : Nat} (hd : d.text.rows = above ++ row :: below)
    (hstale : d.IsStale (above.length + 1) previous)
    (h : Cycling d (above.length + 1) previous k e c) : AtTurn d above row below previous k e c := by
  induction h with
  | start => exact ⟨rfl, hd, .inl ⟨rfl, rfl, rfl⟩⟩
  | look offset _ ih => exact ⟨ih.settings, ih.rows, ih.cycle⟩
  | idle _ hnoops happly ih =>
    rw [apply_of_noops hnoops] at happly
    cases happly
    exact ih
  | request _ hrequest ih =>
    obtain ⟨c', f, hnext, hturn⟩ := ih.exists_request hd hstale
    rw [hnext] at hrequest
    cases hrequest
    exact hturn

/-- A cycle is of no use in a document that has been edited since it was returned, or for another
line. -/
theorem Later.isStale {edited : Bool} {previous : Option IndentCycle} {c : IndentCycle}
    (hrequest : d.indentLine line previous = .ok (c, e)) (h : Later e edited f) {l : Nat}
    (hother : ¬ (l = line ∧ edited = false)) : f.IsStale l (some c) := by
  obtain ⟨rfl, -⟩ := counts_indentLine hrequest
  rintro cycle hcycle rfl
  obtain rfl : _ = cycle := Option.some.inj hcycle
  have hedited : edited = true := by simpa using hother
  exact Nat.ne_of_lt (h.revision_lt hedited)

end Document

/-- **Requests to indent a line cycle through its stops.**  The stops of a line are the multiples of
the unit up to its computed column, and that column.  In a run that starts with no cycle or a stale
one, whatever is looked up and whichever idle edits are made between the requests, each request
succeeds and puts the line at the next stop: the last one first, then downwards and around again.
Nothing else of the text changes, the computed column stays, and after as many requests as there are
stops the text is the same again.  A cycle is honoured only for its own line and in a document that
has not been edited since; otherwise the request is one without a cycle, and puts the line at its
computed column. -/
theorem indentLine_cycles (d : Document) :
    (∀ line previous, 0 < d.indentUnit → 1 ≤ line → line ≤ d.lineCount → d.IsStale line previous →
      let stops := (d.levels line).stops
      Levels.IsLadder stops (d.computedIndentation line) d.indentUnit ∧
      ∀ k e c, d.Cycling line previous k e c →
        e.settings = d.settings ∧ e.computedIndentation line = d.computedIndentation line ∧
        e.lineCount = d.lineCount ∧
        (∀ l, 1 ≤ l → l ≤ d.lineCount → l ≠ line → e.row l = d.row l) ∧
        (e.row line).afterIndentation = (d.row line).afterIndentation ∧
        (∀ es : EditSet, (∀ edit ∈ es, edit.isNoop e.buffer = true) → e.apply es = .ok (0, e)) ∧
        (∃ c' f, e.indentLine line c = .ok (c', f) ∧
          some (f.buffer.indentation line) =
            stops[(((stops.length : ℤ) - 1 - k) % stops.length).toNat]?) ∧
        ∀ f c', 0 < k → d.Cycling line previous (k + stops.length) f c' → f.text = e.text) ∧
    ∀ line previous c e, d.indentLine line previous = .ok (c, e) →
      ∀ edited f, e.Later edited f → ∀ l,
        (l = line ∧ edited = false ∧ f.text = e.text) ∨
        (f.indentLine l (some c) = f.indentLine l none ∧
          (1 ≤ l → l ≤ f.lineCount → ∃ c' g, f.indentLine l (some c) = .ok (c', g) ∧
            g.buffer.indentation l = f.computedIndentation l)) := by
  constructor
  · intro line previous hunit hlo hhi hstale stops
    refine ⟨Levels.isLadder_ofIndentation hunit, ?_⟩
    intro k e c hrun
    obtain ⟨above, row, below, hd, rfl⟩ := Buffer.exists_rows (b := d.buffer) hlo hhi
    have hturn := hrun.atTurn hd hstale
    have hcount : e.lineCount = d.lineCount := (hturn.sameOutline hd).lineCount_eq.symm
    refine ⟨hturn.settings, hturn.computedIndentation_eq hd, hcount, ?_, ?_,
      fun es hnoops => Document.apply_of_noops hnoops, ?_, ?_⟩
    · intro l hl hl' hne
      exact Document.row_of_ne hd hturn.rows hcount hl hl' hne
    · rw [Document.row_of_rows hturn.rows, Document.row_of_rows hd,
        Document.afterIndentation_turnRow]
    · obtain ⟨c', f, hrequest, hnext⟩ := hturn.exists_request hd hstale
      exact ⟨c', f, hrequest, hnext.indentation_eq⟩
    · intro f c' hk hrun'
      obtain ⟨j, rfl⟩ : ∃ j, k = j + 1 := ⟨k - 1, by omega⟩
      exact hturn.text_eq (hrun'.atTurn hd hstale)
  · intro line previous c e hrequest edited f hlater l
    by_cases hsame : l = line ∧ edited = false
    · exact .inl ⟨hsame.1, hsame.2, hlater.text_eq hsame.2⟩
    · have hstale := hlater.isStale hrequest hsame
      right
      constructor
      · have hnone : f.IsStale l none := nofun
        rw [Document.indentLine, Document.indentLine, Document.nextLevels_of_isStale hstale,
          Document.nextLevels_of_isStale hnone]
      · intro hl hl'
        exact Document.indentLine_of_isStale hl hl' hstale

/-- An argument that stands under the one before it, at a column that is no multiple of the unit.  The
first cycle is of no use once the line has gone on to the next stop. -/
theorem indentLine_cycles_in_brackets :
    let d := Document.ofText "longname(a,\nb".toList
    (0 < d.indentUnit ∧ 2 ≤ d.lineCount ∧ d.IsStale 2 none) ∧ (d.levels 2).stops = [0, 4, 8, 9] ∧
    ∃ c e c' f, d.indentLine 2 none = .ok (c, e) ∧ e.buffer.indentation 2 = 9 ∧
      e.indentLine 2 (some c) = .ok (c', f) ∧ f.buffer.indentation 2 = 8 ∧
      e.Later true f ∧ f.indentLine 2 (some c) = f.indentLine 2 none := by
  intro d
  have hunit : 0 < d.indentUnit := by decide
  have hline : 2 ≤ d.lineCount := by decide +kernel
  have hstale : d.IsStale 2 none := nofun
  have hstops : (d.levels 2).stops = [0, 4, 8, 9] := by decide +kernel
  have hruns := ((indentLine_cycles d).1 2 none hunit (by decide) hline hstale).2
  simp only [hstops] at hruns
  obtain ⟨-, -, -, -, -, -, ⟨c, e, hfirst, hnine⟩, -⟩ := hruns 0 d none .start
  have hrun : d.Cycling 2 none 1 e (some c) := .request .start hfirst
  obtain ⟨hse, -, hle, -, -, -, ⟨c', f, hsecond, height⟩, -⟩ := hruns 1 e (some c) hrun
  obtain ⟨hsf, -, hlf, -⟩ := hruns 2 f (some c') (.request hrun hsecond)
  have hnine' : e.buffer.indentation 2 = 9 := by simpa using hnine
  have height' : f.buffer.indentation 2 = 8 := by simpa using height
  have hlater : e.Later true f := by
    have hchanged : f.text ≠ e.text := by
      intro htext
      have hsame : f.buffer.line 2 = e.buffer.line 2 :=
        Document.line_eq_of_take (by rw [htext]) (by decide) (hlf ▸ hline) (hle ▸ hline)
      rw [Buffer.indentation, hsame, Document.tabWidth_of_settings (hsf.trans hse.symm)] at height'
      exact absurd (hnine'.symm.trans height') (by decide)
    have hadjust : e.adjust (.indentLine 2 (some c)) = .ok f := by
      rw [Document.adjust, hsecond]
      rfl
    simpa [hchanged] using Document.Later.adjust .refl hadjust
  refine ⟨⟨hunit, hline, hstale⟩, hstops, c, e, c', f, hfirst, hnine', hsecond, height', hlater, ?_⟩
  rcases (indentLine_cycles d).2 2 none c e hfirst true f hlater 2 with ⟨-, hflag, -⟩ | ⟨hnone, -⟩
  · cases hflag
  · exact hnone

end Offside
