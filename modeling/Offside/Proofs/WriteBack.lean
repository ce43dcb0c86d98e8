import Mathlib.Data.Nat.Count
import Offside.Proofs.ReindentFile
import Offside.Proofs.Revision
import Offside.Proofs.Untouched

/-!
# Writing changes back

A change of a file is answered with the text after it, or the text is written to the file.  Whether
it is written is read off the revision, and the number that is reported is counted by the change
itself, in one way for each kind of change.  All of them come to the same: the lines in which the
texts differ.

* `Text.differingRows`, `Document.card_movedLines`: the lines in which two texts differ;
* `Document.card_movedLines_apply`: edits of different lines at once;
* `Change.adjustment`, `Document.adjust_adjustment`, `Document.counts_perform`: the changes;
* `Tree.run_edit_of_error`, `run_edit_of_refused`, `run_edit_of_performed`: what a request for a change
  does;
* `writing_back_is_faithful`.
-/

namespace Offside

/-! ### Lines in which texts differ -/

namespace Text

/-- The number of rows that are not the same in another text. -/
def differingRows (t u : Text) : Nat := (t.rows.zip u.rows).countP fun p => p.1 != p.2

theorem countP_zip_ne {xs ys : List Text} (h : xs.length = ys.length) :
    (xs.zip ys).countP (fun p => p.1 != p.2) = Nat.count (fun i => ys[i]? ≠ xs[i]?) xs.length := by
  induction xs generalizing ys with
  | nil => simp
  | cons x xs ih =>
    cases ys with
    | nil => cases h
    | cons y ys =>
      rw [List.zip_cons_cons, List.countP_cons, ih (by simpa using h), List.length_cons,
        Nat.count_succ']
      by_cases hxy : x = y
      · simp [hxy]
      · simp [hxy, Ne.symm hxy]

theorem differingRows_self (t : Text) : t.differingRows t = 0 := by
  rw [differingRows, countP_zip_ne rfl]
  simp

end Text

namespace Document

variable {d e : Document} {n : Nat}

theorem length_rows (d : Document) : d.text.rows.length = d.lineCount :=
  d.buffer.lineCount_eq.symm

/-- The lines that have moved are the rows that differ. -/
theorem card_movedLines (h : e.lineCount = d.lineCount) :
    (d.movedLines e).card = d.text.differingRows e.text := by
  have hlength : d.text.rows.length = e.text.rows.length := by rw [length_rows, length_rows, h]
  rw [Text.differingRows, Text.countP_zip_ne hlength, Nat.count_eq_card_filter_range, length_rows]
  refine Finset.card_bij (fun line _ => line - 1) ?_ ?_ ?_
  · intro line hline
    obtain ⟨⟨hlo, hhi⟩, hne⟩ := mem_movedLines.1 hline
    simp only [Finset.mem_filter, Finset.mem_range]
    refine ⟨by omega, ?_⟩
    rw [getElem?_rows hlo hhi, getElem?_rows hlo (h ▸ hhi)]
    simpa using hne
  · intro line hline line' hline' heq
    have hlo := (mem_movedLines.1 hline).1.1
    have hlo' := (mem_movedLines.1 hline').1.1
    omega
  · intro index hindex
    simp only [Finset.mem_filter, Finset.mem_range] at hindex
    obtain ⟨hlt, hne⟩ := hindex
    refine ⟨index + 1, mem_movedLines.2 ⟨⟨by omega, by omega⟩, fun hrow => hne ?_⟩, by omega⟩
    have hd : d.text.rows[index]? = some (d.row (index + 1)) :=
      getElem?_rows (Nat.le_add_left 1 index) (by omega)
    have he : e.text.rows[index]? = some (e.row (index + 1)) :=
      getElem?_rows (Nat.le_add_left 1 index) (by omega)
    rw [hd, he, hrow]

/-! ### Different lines at once -/

section Apply

variable {lines : List Nat} (column : Nat → Nat)

/-- A row after edits of the indentation of different lines. -/
theorem row_of_indentationEdits {above below : List Text} {r : Text}
    (hd : d.text.rows = above ++ r :: below) (he : e.text.rows = d.text.rows.mapIdx fun k r =>
      Text.indentWith (d.newIndentation lines column k) r) :
    e.row (above.length + 1) = Text.indentWith (d.newIndentation lines column above.length) r := by
  rw [hd, List.mapIdx_append, List.mapIdx_cons] at he
  have hlength : (above.mapIdx fun k r =>
      Text.indentWith (d.newIndentation lines column k) r).length = above.length :=
    List.length_mapIdx
  rw [← hlength, row_of_rows he]
  simp

/-- A row differs if its line is listed and the edit of it changes something. -/
theorem row_ne_iff {above below : List Text} {r : Text} (hd : d.text.rows = above ++ r :: below)
    (he : e.text.rows = d.text.rows.mapIdx fun k r =>
      Text.indentWith (d.newIndentation lines column k) r) :
    e.row (above.length + 1) ≠ d.row (above.length + 1) ↔
      above.length + 1 ∈ lines ∧ (!(d.indentationEdit (above.length + 1)
        (column (above.length + 1))).isNoop d.buffer) = true := by
  rw [row_of_rows hd, row_of_indentationEdits column hd he, newIndentation]
  by_cases hmem : above.length + 1 ∈ lines
  · rw [if_pos hmem, Text.indentWith, ne_eq, Text.append_afterIndentation_eq_iff,
      ← isNoop_indentationEdit hd]
    simp [hmem]
  · simp [hmem, Text.indentWith]

/-- Edits of the indentation of different lines count the lines that move. -/
theorem card_movedLines_apply (hsorted : lines.Pairwise (· < ·))
    (hlines : ∀ l ∈ lines, 1 ≤ l ∧ l ≤ d.lineCount)
    (h : d.apply (lines.map fun l => d.indentationEdit l (column l)) = .ok (n, e)) :
    (d.movedLines e).card = n := by
  obtain ⟨e', happly, -, hrows⟩ := apply_indentationEdits column hsorted hlines
  rw [h] at happly
  obtain ⟨rfl, rfl⟩ := Prod.mk.inj (Except.ok.inj happly)
  have hmoved : d.movedLines e = (d.changedLines lines column).toFinset := by
    ext line
    rw [mem_movedLines, List.mem_toFinset, changedLines, List.mem_filter]
    constructor
    · rintro ⟨⟨hlo, hhi⟩, hne⟩
      obtain ⟨above, r, below, hd, rfl⟩ := Buffer.exists_rows (b := d.buffer) hlo hhi
      exact (row_ne_iff column hd hrows).1 hne
    · intro hmem
      obtain ⟨above, r, below, hd, rfl⟩ :=
        Buffer.exists_rows (b := d.buffer) (hlines line hmem.1).1 (hlines line hmem.1).2
      exact ⟨hlines _ hmem.1, (row_ne_iff column hd hrows).2 hmem⟩
  rw [hmoved, List.toFinset_card_of_nodup]
  exact (hsorted.imp Nat.ne_of_lt).filter _

end Apply

/-! ### Changes -/

section Operations

variable {start stop line : Nat} {count : Option Nat}

theorem card_movedLines_reindent (h : d.reindent start stop = .ok (n, e)) :
    (d.movedLines e).card = n := by
  obtain ⟨⟨⟩, hcheck, hlines⟩ := exists_of_bind_eq_ok h
  have hregion := mem_of_checkRegion hcheck
  obtain ⟨n', e', hlines', -, hcard⟩ := exists_reindentLines (d := d)
    (List.nodup_range' (s := start) (n := stop + 1 - start)) fun l hl => by
      have := List.mem_range'_1.1 hl
      omega
  rw [hlines] at hlines'
  obtain ⟨rfl, rfl⟩ := Prod.mk.inj (Except.ok.inj hlines')
  exact hcard

/-- Lines of a region that are all moved at once. -/
theorem card_movedLines_regionLines (hcheck : d.checkRegion start stop = .ok ())
    (column : Nat → Nat)
    (h : d.apply ((d.regionLines start stop).map fun l => d.indentationEdit l (column l)) =
      .ok (n, e)) : (d.movedLines e).card = n :=
  card_movedLines_apply column (d.pairwise_regionLines start stop)
    (mem_regionLines (mem_of_checkRegion hcheck)) h

theorem card_movedLines_shiftRight (h : d.shiftRight start stop count = .ok (n, e)) :
    (d.movedLines e).card = n := by
  obtain ⟨⟨⟩, hcheck, happly⟩ := exists_of_bind_eq_ok h
  exact card_movedLines_regionLines hcheck _ happly

theorem card_movedLines_shiftLeft (h : d.shiftLeft start stop count = .ok (n, e)) :
    (d.movedLines e).card = n := by
  obtain ⟨⟨⟩, hcheck, h⟩ := exists_of_bind_eq_ok h
  dsimp only at h
  split at h
  · cases h
  · exact card_movedLines_regionLines hcheck _ h

theorem card_movedLines_electricDedent {moved : Bool}
    (h : d.electricDedent line = .ok (moved, e)) : (d.movedLines e).card = moved.toNat := by
  have hline : 1 ≤ line ∧ line ≤ d.lineCount := by
    by_contra hnot
    rw [electricDedent, checkLine_of_not_mem hnot] at h
    cases h
  obtain ⟨moved', e', h', hmoves⟩ := exists_electricDedent hline
  rw [h] at h'
  obtain ⟨rfl, rfl⟩ := Prod.mk.inj (Except.ok.inj h')
  exact hmoves.moved_eq

end Operations

end Document

/-- The operation that a change of a document amounts to. -/
def Change.adjustment (d : Document) : Change → Adjustment
  | .reindent start? stop? => .reindent (start?.getD 1) (stop?.getD d.lineCount)
  | .shift start stop count left =>
    if left then .shiftLeft start stop count else .shiftRight start stop count
  | .electric line => .electricDedent line

namespace Document

variable {d e : Document} {change : Change} {edited : Edited}

/-- An operation whose result is reported leaves the document that it does. -/
theorem map_snd_eq_map_document {α : Type} {report : α × Document → Edited}
    (h : ∀ result, (report result).document = result.2) (x : Except EditError (α × Document)) :
    (·.2) <$> x = (·.document) <$> (x >>= fun result => pure (report result)) := by
  cases x with
  | error err => rfl
  | ok result => exact congrArg Except.ok (h result).symm

theorem adjust_adjustment (d : Document) (change : Change) :
    d.adjust (change.adjustment d) = (·.document) <$> d.perform change := by
  cases change with
  | reindent | electric => exact map_snd_eq_map_document (fun _ => rfl) _
  | shift start stop count left =>
    cases left with
    | true | false => exact map_snd_eq_map_document (fun _ => rfl) _

/-- A change counts the lines that move, and the revision tells whether there are any. -/
theorem counts_perform (h : d.perform change = .ok edited) :
    d.Counts edited.changed edited.document ∧
      (d.movedLines edited.document).card = edited.changed := by
  cases change with
  | reindent start? stop? =>
    obtain ⟨⟨n, e⟩, hreindent, h⟩ := exists_of_bind_eq_ok h
    cases h
    exact ⟨counts_reindent hreindent, card_movedLines_reindent hreindent⟩
  | shift start stop count left =>
    cases left with
    | true =>
      obtain ⟨⟨n, e⟩, hshift, h⟩ := exists_of_bind_eq_ok h
      cases h
      exact ⟨counts_shiftLeft hshift, card_movedLines_shiftLeft hshift⟩
    | false =>
      obtain ⟨⟨n, e⟩, hshift, h⟩ := exists_of_bind_eq_ok h
      cases h
      exact ⟨counts_shiftRight hshift, card_movedLines_shiftRight hshift⟩
  | electric line =>
    obtain ⟨⟨moved, e⟩, hdedent, h⟩ := exists_of_bind_eq_ok h
    cases h
    have hcount : (if moved then 1 else 0) = moved.toNat := by cases moved <;> rfl
    show d.Counts (if moved then 1 else 0) e ∧ (d.movedLines e).card = if moved then 1 else 0
    rw [hcount]
    exact ⟨counts_electricDedent hdedent, card_movedLines_electricDedent hdedent⟩

/-- A change counts the lines in which the text differs. -/
theorem text_of_perform (h : d.perform change = .ok edited) :
    edited.document.text.rows.length = d.text.rows.length ∧
      edited.changed = d.text.differingRows edited.document.text ∧
      (edited.document.text ≠ d.text ↔ 0 < edited.changed) := by
  obtain ⟨hcounts, hmoved⟩ := counts_perform h
  have hadjust : d.adjust (change.adjustment d) = .ok edited.document := by
    rw [adjust_adjustment, h]
    rfl
  have hcount : edited.document.lineCount = d.lineCount :=
    (sameOutline_adjust hadjust).lineCount_eq.symm
  have hchanged : edited.changed = d.text.differingRows edited.document.text := by
    rw [← hmoved, card_movedLines hcount]
  refine ⟨by rw [length_rows, length_rows, hcount], hchanged, ?_⟩
  constructor
  · intro hne
    by_contra hzero
    exact hne (by rw [hcounts.same (by omega)])
  · intro hpos htext
    rw [hchanged, htext, Text.differingRows_self] at hpos
    exact absurd hpos (by omega)

end Document

/-! ### Requests -/

theorem eq_ok_of_mapError {ε ε' α : Type} {x : Except ε α} {f : ε → ε'} {a : α}
    (h : x.mapError f = .ok a) : x = .ok a := by
  cases x with
  | error err => cases h
  | ok b =>
    cases h
    rfl

/-- The document of a request has the text of the file, and nothing has been done to it. -/
theorem Request.lookup_of_openDocument {lookup : String → Found} {r : Request} {d : Document}
    (h : r.openDocument lookup = .ok d) : lookup r.file = .text d.text ∧ d.revision = 0 := by
  rw [openDocument] at h
  split at h
  · obtain ⟨text, hread, h⟩ := exists_of_bind_eq_ok h
    obtain ⟨config, -, h⟩ := exists_of_bind_eq_ok h
    obtain ⟨-, -, -, htext, hrevision, -⟩ := Document.opened_spec (eq_ok_of_mapError h)
    refine ⟨?_, hrevision⟩
    rw [htext]
    have hfile := eq_ok_of_mapError hread
    cases hfound : lookup r.file with
    | text t =>
      rw [hfound] at hfile
      cases hfile
      rfl
    | _ =>
      rw [hfound] at hfile
      cases hfile
  · cases h

namespace Tree

variable {t : Tree} {r : Request} {d : Document} {change : Change}

/-- A request for a change fails if its document cannot be opened. -/
theorem run_edit_of_error {failure : Failure} (h : r.openDocument t.lookup = .error failure)
    (write : Bool) :
    t.run { r with command := .edit change write } = (.error failure, t) := by
  have hopen : ({ r with command := .edit change write } : Request).openDocument t.lookup =
      .error failure := h
  rw [run, Request.run, hopen]
  rfl

/-- A request for a change fails if the document refuses it. -/
theorem run_edit_of_refused {err : EditError} (h : r.openDocument t.lookup = .ok d)
    (hperform : d.perform change = .error err) (write : Bool) :
    t.run { r with command := .edit change write } = (.error (.edit err), t) := by
  have hopen : ({ r with command := .edit change write } : Request).openDocument t.lookup = .ok d := h
  have hrun : ({ r with command := .edit change write } : Request).run t.lookup =
      .error (.edit err) := by
    rw [Request.run, hopen]
    show ((d.perform change).mapError Failure.edit >>= _) = _
    rw [hperform]
    rfl
  rw [run, hrun]

/-- Otherwise the text after it is written, or is part of the answer. -/
theorem run_edit_of_performed {edited : Edited} (h : r.openDocument t.lookup = .ok d)
    (hperform : d.perform change = .ok edited) (write : Bool) :
    t.run { r with command := .edit change write } =
      (.ok ⟨r.file, .regionEdit edited.operation edited.start edited.stop edited.changed
          (write && edited.document.revision != 0)
          (if write && edited.document.revision != 0 then none else some edited.document.text)⟩,
        if write && edited.document.revision != 0 then t.write r.file edited.document.text
        else t) := by
  have hopen : ({ r with command := .edit change write } : Request).openDocument t.lookup = .ok d := h
  have hrun : ({ r with command := .edit change write } : Request).run t.lookup =
      .ok (edited.outcome r.file write) := by
    rw [Request.run, hopen]
    show ((d.perform change).mapError Failure.edit >>= _) = _
    rw [hperform]
    rfl
  rw [run, hrun, Edited.outcome]
  cases write && edited.document.revision != 0 with
  | true => rfl
  | false => rfl

end Tree

/-- A text that is written to a file, or is in it already, is there afterwards; nothing else has
changed. -/
theorem Tree.lookup_writeIf {t : Tree} {file : String} {old : Text}
    (hfile : t.lookup file = .text old) (written : Bool) (new : Text)
    (hsame : ¬ written = true → new = old) :
    (if written then t.write file new else t).lookup file = .text new ∧
      ∀ path, (if written then t.write file new else t).resolve path = t.resolve path ∧
        (t.resolve path ≠ t.resolve file →
          (if written then t.write file new else t).lookup path = t.lookup path) := by
  by_cases hwritten : written = true
  · rw [if_pos hwritten]
    exact ⟨lookup_write hfile new, fun path =>
      ⟨resolve_write hfile new path, fun hne => lookup_write_of_ne hfile new hne⟩⟩
  · rw [if_neg hwritten]
    exact ⟨hsame hwritten ▸ hfile, fun path => ⟨rfl, fun _ => rfl⟩⟩

/-- **Writing back is faithful.**  Compare a request for a change that only answers with one that
writes.  Either both fail in the same way, because the document cannot be opened or because it
refuses the change, and no file is touched.  Or the first answers with the text after the change and
touches no file, and after the second this text is in the file, whereas all paths lead where they did
and those to other places find what they did.  Both report the same number of lines, which is that
of the lines in which the texts differ; the second says that it has written exactly if there are
any, and only then does it leave out the text. -/
theorem writing_back_is_faithful (t : Tree) (r : Request) (change : Change) :
    let dry := t.run { r with command := .edit change false }
    let kept := t.run { r with command := .edit change true }
    (∃ failure, dry = (.error failure, t) ∧ kept = (.error failure, t) ∧
      (r.openDocument t.lookup = .error failure ∨ ∃ d err, r.openDocument t.lookup = .ok d ∧
        d.Refused (change.adjustment d) err ∧ failure = .edit err)) ∨
    ∃ d e operation start stop changed written t',
      (r.openDocument t.lookup = .ok d ∧ d.adjust (change.adjustment d) = .ok e) ∧
      t.lookup r.file = .text d.text ∧
      dry = (.ok ⟨r.file, .regionEdit operation start stop changed false (some e.text)⟩, t) ∧
      kept = (.ok ⟨r.file, .regionEdit operation start stop changed written
        (if written then none else some e.text)⟩, t') ∧
      t'.lookup r.file = .text e.text ∧
      (∀ path, t'.resolve path = t.resolve path ∧
        (t.resolve path ≠ t.resolve r.file → t'.lookup path = t.lookup path)) ∧
      (written = true ↔ e.text ≠ d.text) ∧ (written = true ↔ 0 < changed) ∧
      e.text.rows.length = d.text.rows.length ∧ changed = d.text.differingRows e.text := by
  intro dry kept
  cases hopen : r.openDocument t.lookup with
  | error failure =>
    exact .inl ⟨failure, Tree.run_edit_of_error hopen false, Tree.run_edit_of_error hopen true,
      .inl rfl⟩
  | ok d =>
    have hadjust := d.adjust_adjustment change
    cases hperform : d.perform change with
    | error err =>
      rw [hperform] at hadjust
      refine .inl ⟨.edit err, Tree.run_edit_of_refused hopen hperform false,
        Tree.run_edit_of_refused hopen hperform true, .inr ⟨d, err, rfl, ?_, rfl⟩⟩
      exact Document.adjust_eq_error_iff.1 hadjust
    | ok edited =>
      rw [hperform] at hadjust
      obtain ⟨hfile, hrevision⟩ := Request.lookup_of_openDocument hopen
      obtain ⟨hlength, hchanged, htext⟩ := Document.text_of_perform hperform
      have hwritten : (edited.document.revision != 0) = true ↔ 0 < edited.changed := by
        have hcount := (Document.counts_perform hperform).1.revision_eq_iff
        rw [hrevision] at hcount
        rw [bne_iff_ne, ne_eq, hcount, Nat.pos_iff_ne_zero]
      obtain ⟨hlookup, hothers⟩ := Tree.lookup_writeIf hfile (edited.document.revision != 0)
        edited.document.text fun hnot => not_not.1 fun hne => hnot (hwritten.2 (htext.1 hne))
      exact .inr ⟨d, edited.document, edited.operation, edited.start, edited.stop, edited.changed,
        edited.document.revision != 0, _, ⟨rfl, hadjust⟩, hfile,
        Tree.run_edit_of_performed hopen hperform false,
        Tree.run_edit_of_performed hopen hperform true, hlookup, hothers,
        hwritten.trans htext.symm, hwritten, hlength, hchanged⟩

end Offside
