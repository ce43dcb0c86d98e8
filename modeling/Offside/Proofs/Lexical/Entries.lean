import Offside.Document
import Offside.Proofs.Lexical.Lookahead
import Offside.Proofs.Text.Rows

/-!
# The entries of a document

The entry of a line is the scanner that has read all rows above it.  What a document reads off its
entries is therefore what scanning from the beginning gives.

* `entries_of_rows`, `Document.entry_of_rows`: the entry of a line with given rows above it;
* `Document.scannerAt_eq`, `Document.stateAt_eq`: the state at any offset;
* `Document.lineStartState_eq`: the state at the start of a line.
-/

namespace Offside

open Lexical
open Text (size)

namespace Lexical

/-- The entry of a line with the text above and from there on. -/
def Entry.between (above rest : Text) : Entry :=
  ⟨({} : Scanner).read [] above rest, above.reverse, rest⟩

theorem laterEntries_of_not_mem {p : Text} (h : '\n' ∉ p) (before x : Text) (s : Scanner) :
    laterEntries before (p ++ x) s = laterEntries (p.reverse ++ before) x (s.read before p x) := by
  induction p generalizing before s with
  | nil => rfl
  | cons c cs ih =>
    have hc : c ≠ '\n' := fun e => h (e ▸ List.mem_cons_self)
    have hcs := ih (fun hm => h (List.mem_cons_of_mem c hm)) (c :: before)
      (s.step before c (cs ++ x))
    simp [laterEntries, hc, hcs, Scanner.read_cons]

theorem laterEntries_of_isFullRow {r : Text} (h : Text.IsFullRow r) (before x : Text)
    (s : Scanner) :
    laterEntries before (r ++ x) s =
      ⟨s.read before r x, r.reverse ++ before, x⟩ ::
        laterEntries (r.reverse ++ before) x (s.read before r x) := by
  obtain ⟨b, hb, rfl⟩ := h
  rw [List.append_assoc, laterEntries_of_not_mem hb, List.singleton_append, laterEntries,
    Scanner.read_append]
  simp [Scanner.read_cons]

/-- Past full rows the entries go on with the line below them. -/
theorem laterEntries_of_rows {above : List Text} (h : ∀ r ∈ above, Text.IsFullRow r)
    (before x : Text) (s : Scanner) :
    ∃ earlier, earlier.length = above.length ∧
      (⟨s, before, above.flatten ++ x⟩ :: laterEntries before (above.flatten ++ x) s : List Entry) =
        earlier ++ ⟨s.read before above.flatten x, above.flatten.reverse ++ before, x⟩ ::
          laterEntries (above.flatten.reverse ++ before) x (s.read before above.flatten x) := by
  induction above generalizing before s with
  | nil => exact ⟨[], rfl, rfl⟩
  | cons r rs ih =>
    obtain ⟨earlier, hlen, he⟩ := ih (fun q hq => h q (List.mem_cons_of_mem r hq))
      (r.reverse ++ before) (s.read before r (rs.flatten ++ x))
    refine ⟨⟨s, before, (r :: rs).flatten ++ x⟩ :: earlier, by simp [hlen], ?_⟩
    rw [List.cons_append, List.flatten_cons, List.append_assoc,
      laterEntries_of_isFullRow (h r List.mem_cons_self), he]
    simp [Scanner.read_append]

/-- The entry of the line with given rows above it. -/
theorem entries_of_rows {t row : Text} {above below : List Text}
    (h : t.rows = above ++ row :: below) :
    (entries t)[above.length]? = some (Entry.between above.flatten (row ++ below.flatten)) := by
  obtain ⟨earlier, hlen, he⟩ :=
    laterEntries_of_rows (Text.isFullRow_of_rows h) [] (row ++ below.flatten) {}
  rw [Text.eq_flatten_of_rows h, entries, he, ← hlen]
  simp [Entry.between]

end Lexical

namespace Document

variable {d : Document} {row : Text} {above below : List Text}

theorem entry_of_rows (h : d.text.rows = above ++ row :: below) :
    d.entry (above.length + 1) = Entry.between above.flatten (row ++ below.flatten) := by
  rw [entry, Buffer.clampLine_of_hasLine (by omega) (Buffer.length_le_lineCount h),
    Nat.add_sub_cancel, d.entries_eq, Array.getD_eq_getD_getElem?, ← Array.getElem?_toList]
  exact congrArg (Option.getD · default) (entries_of_rows h)

/-- The state at the start of a line is what scanning the rows above it gives. -/
theorem lineStartState_of_rows (h : d.text.rows = above ++ row :: below) :
    d.lineStartState (above.length + 1) =
      (({} : Scanner).read [] above.flatten (row ++ below.flatten)).state := by
  rw [lineStartState, entry_of_rows h, Entry.between]

end Document

/-- The row that holds an offset, the last one for offsets past the end. -/
theorem Text.exists_rows_of_offset (rs : List Text) (hrs : rs ≠ []) (offset : Nat) :
    ∃ above row below, rs = above ++ row :: below ∧ size above.flatten ≤ offset ∧
      (below = [] ∨ offset < size above.flatten + size row) := by
  induction rs generalizing offset with
  | nil => exact absurd rfl hrs
  | cons r rs ih =>
    by_cases hr : rs = [] ∨ offset < size r
    · exact ⟨[], r, rs, rfl, by simp, by simpa using hr⟩
    · rw [not_or, Nat.not_lt] at hr
      obtain ⟨above, row, below, rfl, hlo, hhi⟩ := ih hr.1 (offset - size r)
      refine ⟨r :: above, row, below, rfl, ?_, ?_⟩
      · simp only [List.flatten_cons, Text.size_append]
        omega
      · simp only [List.flatten_cons, Text.size_append]
        exact hhi.imp_right fun h => by omega

namespace Document

variable {d : Document} {row : Text} {above below : List Text}

/-- The scanner at an offset, read off the entry of its line, is the one that scanning from the
beginning gives. -/
theorem scannerAt_eq (d : Document) (offset : Nat) :
    d.scannerAt offset = Scanner.ofOffset d.text offset := by
  obtain ⟨above, row, below, h, hlo, hhi⟩ :=
    Text.exists_rows_of_offset d.text.rows (Text.rows_ne_nil d.text) offset
  obtain ⟨k, rfl⟩ := Nat.exists_eq_add_of_le hlo
  have hline := Buffer.lineOfOffset_of_rows (b := d.buffer) h hlo hhi
  have htext := Text.eq_flatten_of_rows h
  have hbefore : (d.buffer.line (above.length + 1)).before (size above.flatten + k) =
      row.takeBytes k := by
    rw [Buffer.line_of_rows h, Line.before, Line.ofRow_row, Line.ofRow_start,
      Nat.add_sub_cancel_left]
  have htake : (row ++ below.flatten).takeBytes k = row.takeBytes k := by
    rcases hhi with rfl | hhi
    · simp
    · exact Text.takeBytes_append_of_le (by omega) _
  have hrow : row ++ below.flatten =
      row.takeBytes k ++ (row ++ below.flatten).dropBytes k := by
    rw [← htake, Text.takeBytes_append_dropBytes]
  have hread := Scanner.advance_size_add above.flatten.reverse (row.takeBytes k)
    ((row ++ below.flatten).dropBytes k) (({} : Scanner).read [] above.flatten (row ++ below.flatten))
  rw [← hrow, Scanner.read_offset, Nat.zero_add] at hread
  rw [scannerAt, hline, hbefore, Buffer.lineStart_of_rows h, entry_of_rows h, Entry.scannerAt,
    Entry.between, hread, Scanner.ofOffset_eq_read, htext, Text.takeBytes_size_add, Text.dropBytes_size_add, htake,
    Scanner.read_append, ← hrow, List.append_nil]

/-- The state at an offset is what scanning from the beginning gives. -/
theorem stateAt_eq (d : Document) (offset : Nat) :
    d.stateAt offset = Lexical.classify d.text offset := by
  rw [stateAt, scannerAt_eq, Lexical.classify]

theorem ofOffset_of_rows (h : d.text.rows = above ++ row :: below) :
    Scanner.ofOffset d.text (size above.flatten) =
      ({} : Scanner).read [] above.flatten (row ++ below.flatten) := by
  rw [Text.eq_flatten_of_rows h, Scanner.ofOffset_size]

theorem lineStartState_clampLine (d : Document) (line : Nat) :
    d.lineStartState line = d.lineStartState (d.buffer.clampLine line) := by
  rw [lineStartState, lineStartState, entry, entry, Buffer.clampLine_clampLine]

/-- The state at the start of a line is what scanning from the beginning gives. -/
theorem lineStartState_eq (d : Document) (line : Nat) :
    d.lineStartState line = Lexical.classify d.text (d.buffer.lineStart line) := by
  obtain ⟨above, row, below, h, hline⟩ := Buffer.exists_rows_clampLine d.buffer line
  rw [lineStartState_clampLine, Buffer.lineStart_clampLine, hline, lineStartState_of_rows h,
    Buffer.lineStart_of_rows h, Lexical.classify, ← ofOffset_of_rows h]

/-- The code characters from the start of a line are those of the text. -/
theorem codeCharsOfLines_eq (d : Document) (line stop : Nat) :
    d.codeCharsOfLines line stop =
      Lexical.codeChars d.text (d.buffer.lineStart line) stop := by
  obtain ⟨above, row, below, h, hline⟩ := Buffer.exists_rows_clampLine d.buffer line
  have hentry : d.entry line = d.entry (d.buffer.clampLine line) := by
    rw [entry, entry, Buffer.clampLine_clampLine]
  have htext : d.text = _ := Text.eq_flatten_of_rows h
  rw [codeCharsOfLines, hentry, Buffer.lineStart_clampLine, hline, entry_of_rows h,
    Buffer.lineStart_of_rows h, Lexical.codeChars, ofOffset_of_rows h, Scanner.codeCharsOf,
    Scanner.read_offset, Nat.zero_add, htext, Text.takeBytes_size, Text.dropBytes_size,
    Entry.codeChars, Entry.between]

end Document

end Offside
