import Offside.Proofs.Agreement.Report
import Offside.Proofs.Outline
import Offside.Proofs.SetIndentation
import Offside.Proofs.Substitution

/-!
# Changing the indentation of several lines at once

The edits of the indentation of different lines lie apart from each other, so they can always be
made together.  What they lead to is every row with its own new indentation, and the outline of the
text stays.

* `Text.indentWith`, `rows_flatten_of_outline`: rows with other indentation;
* `inOrder_indentationEdits`, `weave_indentationEdits`: the edits as one substitution;
* `Document.apply_of_validate`: edits of a document, those that change nothing left out;
* `Document.apply_indentationEdits`: the rows after them;
* `Document.sameOutline_apply`, `sameOutline_setIndentation`: the outline stays.
-/

namespace Offside

open Text (size)
open EditSet (weave)

namespace Text

/-- A row with other indentation, if some is given. -/
def indentWith (i : Option Text) (row : Text) : Text :=
  match i with
  | some i => i ++ row.afterIndentation
  | none => row

theorem afterIndentation_indentWith {i : Option Text} (hi : ∀ j ∈ i, IsIndentation j)
    (row : Text) : (indentWith i row).afterIndentation = row.afterIndentation := by
  cases i with
  | none => rfl
  | some j => rw [indentWith, afterIndentation_append (hi j rfl), afterIndentation_afterIndentation]

/-- Rows with other indentation have the same outline. -/
theorem map_afterIndentation_mapIdx {f : Nat → Option Text}
    (hf : ∀ k, ∀ i ∈ f k, IsIndentation i) (rs : List Text) :
    (rs.mapIdx fun k r => indentWith (f k) r).map afterIndentation = rs.map afterIndentation := by
  refine List.ext_getElem? fun k => ?_
  rw [List.getElem?_map, List.getElem?_mapIdx, List.getElem?_map, Option.map_map]
  congr 1
  funext r
  exact afterIndentation_indentWith (hf k) r

theorem isFullRow_of_afterIndentation {row : Text} (h : IsFullRow row.afterIndentation) :
    IsFullRow row := by
  have hfull := isFullRow_indent row.isIndentation_indentation h
  rwa [afterIndentation_afterIndentation, indentation_append_afterIndentation] at hfull

theorem not_mem_newline_of_afterIndentation {row : Text} (h : '\n' ∉ row.afterIndentation) :
    '\n' ∉ row := by
  have hmem := not_mem_newline_indent row.isIndentation_indentation h
  rwa [afterIndentation_afterIndentation, indentation_append_afterIndentation] at hmem

/-- Rows that differ from those of a text in their indentation only are the rows of what they join
to. -/
theorem rows_flatten_of_outline {t : Text} {rs : List Text}
    (h : rs.map afterIndentation = t.outline) : rows rs.flatten = rs := by
  obtain ⟨full, last, hrows, hfull, hlast⟩ := exists_rows_eq t
  rw [outline, hrows, List.map_append, List.map_cons, List.map_nil] at h
  obtain ⟨full', rest, rfl, hfull', hrest⟩ := List.map_eq_append_iff.1 h
  obtain ⟨last', tail, rfl, hlast', htail⟩ := List.map_eq_cons_iff.1 hrest
  obtain rfl : tail = [] := List.map_eq_nil_iff.1 htail
  have hnewline : '\n' ∉ last' := by
    refine not_mem_newline_of_afterIndentation ?_
    rw [hlast']
    exact fun hmem => hlast ((List.dropWhile_suffix _).subset hmem)
  have hrow : ∀ r ∈ full', IsFullRow r := by
    intro r hr
    have hmem : r.afterIndentation ∈ full.map afterIndentation := by
      rw [← hfull']
      exact List.mem_map_of_mem hr
    obtain ⟨q, hq, hqr⟩ := List.mem_map.1 hmem
    exact isFullRow_of_afterIndentation (hqr ▸ isFullRow_afterIndentation (hfull q hq))
  rw [List.flatten_append, List.flatten_singleton, rows_flatten_append hrow,
    rows_of_not_mem hnewline]

end Text

namespace Document

variable {d : Document} {lines : List Nat} (column : Nat → Nat)

/-! ### The edits -/

/-- Edits of the indentation of different lines lie apart. -/
theorem inOrder_indentationEdits (hsorted : lines.Pairwise (· < ·))
    (hlines : ∀ l ∈ lines, 1 ≤ l ∧ l ≤ d.lineCount) :
    EditSet.InOrder (lines.map fun l => d.indentationEdit l (column l)) := by
  rw [EditSet.InOrder, List.pairwise_map]
  refine List.Pairwise.imp_of_mem ?_ hsorted
  intro m n hm hn hlt
  have hend := (Buffer.lineEnd_lt_lineStart (hlines m hm).1 hlt (hlines n hn).2).1
  have hle := d.buffer.indentationEnd_le m
  have hstart : d.buffer.lineStart m ≤ d.buffer.lineEnd m := Nat.le_add_right _ _
  exact ⟨by show d.buffer.lineStart m < d.buffer.lineStart n; omega,
    by show d.buffer.indentationEnd m ≤ d.buffer.lineStart n; omega⟩

section Row

variable {above below : List Text} {row : Text}

/-- A text cut at the indentation of a row. -/
theorem text_of_rows (h : d.text.rows = above ++ row :: below) :
    d.text = above.flatten ++ (row.indentation ++ (row.afterIndentation ++ below.flatten)) := by
  rw [Text.eq_flatten_of_rows h, ← List.append_assoc row.indentation,
    Text.indentation_append_afterIndentation]

theorem slice_of_rows (h : d.text.rows = above ++ row :: below) :
    d.buffer.slice? (d.buffer.lineStart (above.length + 1))
      (d.buffer.indentationEnd (above.length + 1)) = some row.indentation := by
  rw [Buffer.slice?, Buffer.lineStart_of_rows h, Buffer.indentationEnd_of_rows h,
    show d.buffer.text = _ from text_of_rows h, Text.slice?_append]

/-- An edit that gives a row the indentation that it has changes nothing. -/
theorem isNoop_indentationEdit (h : d.text.rows = above ++ row :: below) (c : Nat) :
    (d.indentationEdit (above.length + 1) c).isNoop d.buffer = true ↔
      row.indentation = d.written c := by
  rw [TextEdit.isNoop]
  show (d.buffer.slice? (d.buffer.lineStart (above.length + 1))
    (d.buffer.indentationEnd (above.length + 1)) == some (d.written c)) = true ↔ _
  rw [slice_of_rows h]
  simp

end Row

theorem fits_indentationEdit {line : Nat} (hline : 1 ≤ line ∧ line ≤ d.lineCount) (c : Nat) :
    (d.indentationEdit line c).span.Fits d.text := by
  obtain ⟨above, row, below, h, rfl⟩ := Buffer.exists_rows hline.1 hline.2
  refine Span.isSome_slice?_iff.1 ?_
  have hslice := slice_of_rows h
  rw [Buffer.slice?] at hslice
  exact Option.isSome_of_eq_some hslice

/-- The new indentation of the row at an index, if its line is listed. -/
def newIndentation (d : Document) (lines : List Nat) (column : Nat → Nat) (index : Nat) :
    Option Text :=
  if index + 1 ∈ lines then some (d.written (column (index + 1))) else none

theorem isIndentation_newIndentation (d : Document) (lines : List Nat) (column : Nat → Nat)
    (index : Nat) : ∀ i ∈ d.newIndentation lines column index, Text.IsIndentation i := by
  intro i hi
  unfold newIndentation at hi
  split at hi
  · obtain rfl := Option.some.inj hi
    exact d.isIndentation_written _
  · cases hi

/-- Lines that are not listed any more count only for rows above. -/
theorem newIndentation_of_le {index line : Nat} (h : line ≤ index) :
    d.newIndentation (line :: lines) column index = d.newIndentation lines column index := by
  have hne : index + 1 ≠ line := by omega
  simp [newIndentation, hne]

/-- The first of sorted line numbers after `n`, if it is the next one. -/
theorem exists_cons_of_mem {n : Nat} (hsorted : lines.Pairwise (· < ·))
    (hlines : ∀ l ∈ lines, n < l) (hmem : n + 1 ∈ lines) :
    ∃ ls, lines = (n + 1) :: ls ∧ ls.Pairwise (· < ·) ∧ ∀ l ∈ ls, n + 1 < l := by
  obtain ⟨l, ls, rfl⟩ := List.exists_cons_of_ne_nil (List.ne_nil_of_mem hmem)
  obtain ⟨hl, hls⟩ := List.pairwise_cons.1 hsorted
  obtain rfl : l = n + 1 := by
    have := hlines l List.mem_cons_self
    rcases List.mem_cons.1 hmem with h | h
    · exact h.symm
    · have := hl _ h
      omega
  exact ⟨ls, rfl, hls, hl⟩

/-- The edit of a row's indentation comes after what is still to be copied of the rows above. -/
theorem weave_indentationEdit {above below : List Text} {row p pending : Text}
    (hrows : d.text.rows = above ++ row :: below) (habove : above.flatten = p ++ pending) (c : Nat)
    (es : EditSet) :
    weave d.text (size p) (d.indentationEdit (above.length + 1) c :: es) =
      pending ++ (d.written c ++ weave d.text (size (above.flatten ++ row.indentation)) es) := by
  have hbetween : d.text.between (size p) (d.buffer.lineStart (above.length + 1)) = pending := by
    rw [Buffer.lineStart_of_rows hrows, Text.between, text_of_rows hrows, Text.takeBytes_size,
      habove, Text.dropBytes_size]
  have hsize : size (above.flatten ++ row.indentation) =
      d.buffer.indentationEnd (above.length + 1) := by
    rw [Buffer.indentationEnd_of_rows hrows, Text.size_append]
  rw [weave, hsize, ← List.append_assoc]
  show d.text.between (size p) (d.buffer.lineStart (above.length + 1)) ++ d.written c ++
    weave d.text (d.buffer.indentationEnd (above.length + 1)) es = _
  rw [hbetween]

/-- Edits of the indentation of lines below some rows lead to the rows from there on with their new
indentation.  The last part of the rows above may still have to be copied. -/
theorem weave_indentationEdits (lines : List Nat) (p pending : Text) {above rest : List Text}
    (hrows : d.text.rows = above ++ rest) (habove : above.flatten = p ++ pending)
    (hsorted : lines.Pairwise (· < ·)) (hlines : ∀ l ∈ lines, above.length < l ∧ l ≤ d.lineCount) :
    weave d.text (size p) (lines.map fun l => d.indentationEdit l (column l)) =
      pending ++ (rest.mapIdx fun k r =>
        Text.indentWith (d.newIndentation lines column (k + above.length)) r).flatten := by
  induction rest generalizing above p pending lines with
  | nil =>
    -- no line is left, so neither is an edit
    have hnil : lines = [] := by
      refine List.eq_nil_iff_forall_not_mem.2 fun l hl => ?_
      have hcount : d.lineCount = above.length := by
        rw [lineCount, Buffer.lineCount_eq, show d.buffer.text.rows = _ from hrows]
        simp
      have := hlines l hl
      omega
    have htext : d.text = p ++ pending := by
      rw [← habove, ← Text.flatten_rows d.text, hrows, List.append_nil]
    subst hnil
    rw [htext]
    simp [weave]
  | cons row rest ih =>
    have hrows' : d.text.rows = (above ++ [row]) ++ rest := by simpa using hrows
    have hindex : ∀ k, k + (above ++ [row]).length = k + 1 + above.length := by
      intro k
      rw [List.length_append, List.length_singleton]
      omega
    rw [List.mapIdx_cons, List.flatten_cons, Nat.zero_add]
    by_cases hmem : above.length + 1 ∈ lines
    · -- the row's own edit comes first, and what follows its indentation is copied next
      obtain ⟨ls, rfl, hls, hlt⟩ := exists_cons_of_mem hsorted (fun l hl => (hlines l hl).1) hmem
      have hls' : ∀ k ∈ ls, (above ++ [row]).length < k ∧ k ≤ d.lineCount := by
        intro k hk
        rw [List.length_append, List.length_singleton]
        exact ⟨hlt k hk, (hlines k (List.mem_cons_of_mem _ hk)).2⟩
      have hnext := ih ls (above.flatten ++ row.indentation) row.afterIndentation hrows' (by simp)
        hls hls'
      have hrest : ∀ k, d.newIndentation ((above.length + 1) :: ls) column (k + 1 + above.length) =
          d.newIndentation ls column (k + 1 + above.length) :=
        fun k => newIndentation_of_le column (by omega)
      rw [List.map_cons, weave_indentationEdit hrows habove, hnext, newIndentation, if_pos hmem,
        Text.indentWith]
      simp only [hindex, hrest, List.append_assoc]
    · -- the row has no edit, and is copied as a whole
      have hlines' : ∀ k ∈ lines, (above ++ [row]).length < k ∧ k ≤ d.lineCount := by
        intro k hk
        have hne : k ≠ above.length + 1 := fun e => hmem (e ▸ hk)
        have := hlines k hk
        rw [List.length_append, List.length_singleton]
        omega
      have hnext := ih lines p (pending ++ row) hrows' (by simp [habove]) hsorted hlines'
      rw [hnext, newIndentation, if_neg hmem, Text.indentWith]
      simp only [hindex, List.append_assoc]

/-! ### The document after them -/

/-- Edits of a document are made if those of them that change something can be. -/
theorem apply_of_validate {es : EditSet}
    (h : (es.withoutNoops d.buffer).validate d.buffer = .ok ()) :
    ∃ d', d.apply es = .ok ((es.withoutNoops d.buffer).length, d') ∧
      d'.text = (es.withoutNoops d.buffer).replaceAll d.text ∧ d'.settings = d.settings := by
  have hbuffer := EditSet.apply_of_validate_ok h
  cases happly : d.apply es with
  | error err =>
    rw [apply_error happly] at hbuffer
    cases hbuffer
  | ok answer =>
    obtain ⟨n, d'⟩ := answer
    rcases apply_cases happly with ⟨hnil, rfl, rfl⟩ | ⟨first, -, hmade, rfl, hsettings, -, -⟩
    · refine ⟨d', by rw [hnil]; rfl, ?_, rfl⟩
      simp [hnil, EditSet.replaceAll]
    · rw [hmade] at hbuffer
      refine ⟨d', rfl, ?_, hsettings⟩
      rw [text, Except.ok.inj hbuffer]
      rfl

/-- The lines of a list on which new indentation changes something. -/
def changedLines (d : Document) (lines : List Nat) (column : Nat → Nat) : List Nat :=
  lines.filter fun l => !(d.indentationEdit l (column l)).isNoop d.buffer

theorem withoutNoops_indentationEdits (d : Document) (lines : List Nat) (column : Nat → Nat) :
    EditSet.withoutNoops d.buffer (lines.map fun l => d.indentationEdit l (column l)) =
      (d.changedLines lines column).map fun l => d.indentationEdit l (column l) := by
  rw [EditSet.withoutNoops, List.filter_map]
  rfl

/-- A row whose edit changes nothing has its new indentation already. -/
theorem indentWith_changedLines {above below : List Text} {row : Text}
    (h : d.text.rows = above ++ row :: below) (lines : List Nat) (column : Nat → Nat) :
    Text.indentWith (d.newIndentation (d.changedLines lines column) column above.length) row =
      Text.indentWith (d.newIndentation lines column above.length) row := by
  have hnoop := isNoop_indentationEdit h (column (above.length + 1))
  rw [newIndentation, newIndentation, changedLines]
  by_cases hmem : above.length + 1 ∈ lines
  · by_cases hsame : row.indentation = d.written (column (above.length + 1))
    · rw [if_neg (by simp [hnoop.2 hsame]), if_pos hmem, Text.indentWith, Text.indentWith, ← hsame,
        Text.indentation_append_afterIndentation]
    · have hkept : above.length + 1 ∈ lines.filter fun l =>
          !(d.indentationEdit l (column l)).isNoop d.buffer :=
        List.mem_filter.2 ⟨hmem, by simpa using fun h => hsame (hnoop.1 h)⟩
      rw [if_pos hkept, if_pos hmem]
  · rw [if_neg fun h => hmem (List.mem_of_mem_filter h), if_neg hmem]

/-- The rows of a text, each with what stands above it. -/
theorem exists_rows_getElem {k : Nat} (hk : k < d.text.rows.length) :
    ∃ above below, d.text.rows = above ++ d.text.rows[k] :: below ∧ k = above.length := by
  refine ⟨d.text.rows.take k, d.text.rows.drop (k + 1), ?_, ?_⟩
  · rw [← List.drop_eq_getElem_cons hk, List.take_append_drop]
  · rw [List.length_take]
    omega

/-- Edits of the indentation of different lines are made, and give every row its new indentation. -/
theorem apply_indentationEdits (hsorted : lines.Pairwise (· < ·))
    (hlines : ∀ l ∈ lines, 1 ≤ l ∧ l ≤ d.lineCount) :
    ∃ d', d.apply (lines.map fun l => d.indentationEdit l (column l)) =
        .ok ((d.changedLines lines column).length, d') ∧ d'.settings = d.settings ∧
      d'.text.rows = d.text.rows.mapIdx fun k r =>
        Text.indentWith (d.newIndentation lines column k) r := by
  -- the edits that change something are again those of different lines
  have hsorted' : (d.changedLines lines column).Pairwise (· < ·) := hsorted.filter _
  have hlines' : ∀ l ∈ d.changedLines lines column, 1 ≤ l ∧ l ≤ d.lineCount :=
    fun l hl => hlines l (List.mem_of_mem_filter hl)
  have hord := inOrder_indentationEdits column hsorted' hlines'
  have hvalid : EditSet.validate d.buffer
      ((d.changedLines lines column).map fun l => d.indentationEdit l (column l)) = .ok () := by
    refine EditSet.validate_eq_ok_iff.2 ⟨?_, hord.disjoint⟩
    intro e he
    obtain ⟨l, hl, rfl⟩ := List.mem_map.1 he
    exact fits_indentationEdit (hlines' l hl) (column l)
  have hkept := withoutNoops_indentationEdits d lines column
  obtain ⟨d', happly, htext, hsettings⟩ := apply_of_validate (hkept ▸ hvalid)
  rw [hkept, List.length_map] at happly
  refine ⟨d', happly, hsettings, ?_⟩
  have hflat : d'.text = (d.text.rows.mapIdx fun k r =>
      Text.indentWith (d.newIndentation (d.changedLines lines column) column k) r).flatten := by
    rw [htext, hkept, show d.text = d.buffer.text from rfl,
      EditSet.replaceAll_eq_weave hvalid (List.Perm.refl _) hord]
    exact weave_indentationEdits column _ [] [] (List.nil_append _).symm rfl hsorted' hlines'
  have houtline := Text.map_afterIndentation_mapIdx
    (d.isIndentation_newIndentation (d.changedLines lines column) column) d.text.rows
  rw [hflat, Text.rows_flatten_of_outline houtline]
  refine List.mapIdx_eq_mapIdx_iff.2 fun k hk => ?_
  obtain ⟨above, below, hrows, hlength⟩ := exists_rows_getElem hk
  have hrow := indentWith_changedLines hrows lines column
  rwa [← hlength] at hrow

/-! ### The outline stays -/

/-- Edits of the indentation of different lines keep the outline. -/
theorem sameOutline_apply {n : Nat} {d' : Document} (hsorted : lines.Pairwise (· < ·))
    (hlines : ∀ l ∈ lines, 1 ≤ l ∧ l ≤ d.lineCount)
    (h : d.apply (lines.map fun l => d.indentationEdit l (column l)) = .ok (n, d')) :
    SameOutline d d' := by
  obtain ⟨e, happly, -, hrows⟩ := apply_indentationEdits column hsorted hlines
  rw [h] at happly
  obtain ⟨-, rfl⟩ := Prod.mk.inj (Except.ok.inj happly)
  rw [SameOutline, Text.outline, Text.outline, hrows,
    Text.map_afterIndentation_mapIdx (d.isIndentation_newIndentation lines column)]

/-- Setting the indentation of a line keeps the outline. -/
theorem sameOutline_setIndentation {above below : List Text} {row i : Text} {d' : Document}
    (hi : Text.IsIndentation i) (h : d.text.rows = above ++ row :: below)
    (h' : d'.text.rows = above ++ (i ++ row.afterIndentation) :: below) : SameOutline d d' := by
  rw [SameOutline, Text.outline, Text.outline, h, h', List.map_append, List.map_append,
    List.map_cons, List.map_cons, Text.afterIndentation_append hi,
    Text.afterIndentation_afterIndentation]

end Document

end Offside
