import Offside.Proofs.Edit
import Offside.Proofs.Text.Rows
import Mathlib.Data.List.Sort

/-!
# Edits as a simultaneous substitution

A list of edits is checked by looking at neighbours in the order of the buffer only, and made one
splice after the other from the last to the first.  Both come to the same as what is meant: no two
edits overlap, and every span, read in the buffer as it was, is replaced by its own text.

* `Span.Fits`: spans that lie in a text on character boundaries;
* `Span.Precedes`, `conflict?_eq_none_iff`: neighbours that do not overlap are enough;
* `validate_eq_ok_iff`: when edits can be made;
* `weave`, `foldlM_splice`: the text with every span replaced, and the splices that lead to it;
* `applyInPlace`: the buffer as a caller sees it, splice by splice;
* `EditSet.apply_is_substitution`: what edits do.
-/

namespace Offside

open Text (size IsBoundary)

/-! ### Spans -/

namespace Span

variable {s t u : Span} {text : Text}

/-- Whether a span lies in a text on character boundaries, its bounds in order. -/
def Fits (text : Text) (s : Span) : Prop :=
  s.start ≤ s.stop ∧ IsBoundary text s.start ∧ IsBoundary text s.stop

instance (text : Text) (s : Span) : Decidable (s.Fits text) :=
  inferInstanceAs (Decidable (_ ∧ _))

theorem isSome_slice?_iff : (text.slice? s.start s.stop).isSome = true ↔ s.Fits text := by
  unfold Text.slice? Fits
  split
  · next h => simpa using h
  · next h => simpa using h

/-- A span does not fit if its bounds are in the wrong order, if it ends past the text or if it
splits a character. -/
theorem not_fits_iff :
    ¬ s.Fits text ↔ s.stop < s.start ∨ Text.size text < s.stop ∨
      text.InsideChar s.start ∨ text.InsideChar s.stop := by
  have hstart := Text.not_isBoundary_iff (t := text) (n := s.start)
  have hstop := Text.not_isBoundary_iff (t := text) (n := s.stop)
  constructor
  · intro h
    by_cases hle : s.start ≤ s.stop
    · by_cases hb : IsBoundary text s.start
      · have hb' : ¬ IsBoundary text s.stop := fun hb' => h ⟨hle, hb, hb'⟩
        rcases hstop.1 hb' with h' | h'
        · exact .inr (.inl h')
        · exact .inr (.inr (.inr h'))
      · rcases hstart.1 hb with h' | h'
        · exact .inr (.inl (by omega))
        · exact .inr (.inr (.inl h'))
    · exact .inl (by omega)
  · rintro (h | h | h | h) ⟨hle, hb, hb'⟩
    · omega
    · exact hstop.2 (.inl h) hb'
    · exact hstart.2 (.inr h) hb
    · exact hstop.2 (.inr h) hb'

theorem overlaps_comm (s t : Span) : s.overlaps t = t.overlaps s := by
  rw [overlaps, overlaps, Bool.beq_comm, Bool.and_comm]

/-- Whether a span starts and ends before another one starts; it may end where the other starts. -/
def Precedes (s t : Span) : Prop := s.start < t.start ∧ s.stop ≤ t.start

instance : Trans Precedes Precedes Precedes where
  trans h h' := ⟨Nat.lt_trans h.1 h'.1, Nat.le_trans h.2 (Nat.le_of_lt h'.1)⟩

/-- A span that precedes another one does not overlap it. -/
theorem Precedes.overlaps_eq_false (h : s.Precedes t) : s.overlaps t = false := by
  obtain ⟨h1, h2⟩ := h
  have hne : (s.start == t.start) = false := by
    rw [beq_eq_false_iff_ne]
    omega
  rw [overlaps, hne, Bool.false_or, Bool.and_eq_false_iff]
  exact .inr (decide_eq_false (by omega))

/-- Of two spans in order the first precedes the second, unless they overlap. -/
theorem precedes_of_le (hle : s.le t = true) (ht : t.start ≤ t.stop) (h : s.overlaps t = false) :
    s.Precedes t := by
  simp only [le, overlaps, Bool.or_eq_true, Bool.or_eq_false_iff, Bool.and_eq_true,
    Bool.and_eq_false_iff, decide_eq_true_eq, decide_eq_false_iff_not, beq_iff_eq,
    beq_eq_false_iff_ne] at hle h
  constructor <;> omega

theorem le_trans (s t u : Span) (h : s.le t = true) (h' : t.le u = true) : s.le u = true := by
  simp only [le, Bool.or_eq_true, Bool.and_eq_true, decide_eq_true_eq, beq_iff_eq] at *
  omega

theorem le_total (s t : Span) : (s.le t || t.le s) = true := by
  simp only [le, Bool.or_eq_true, Bool.and_eq_true, decide_eq_true_eq, beq_iff_eq]
  omega

end Span

theorem Buffer.withText_text (b : Buffer) : b.withText b.text = b := by
  obtain ⟨text, tabWidth, lines, rfl⟩ := b
  rfl

namespace EditSet

variable {b b' : Buffer} {es : EditSet} {text : Text}

/-! ### Conflicts -/

theorem neighbourConflict?_eq_none_iff (l : List Span) :
    neighbourConflict? l = none ↔ l.IsChain fun s t => s.overlaps t = false := by
  fun_induction neighbourConflict? l with
  | case1 s t rest h => simp [h]
  | case2 s t rest h ih => simp [ih, h]
  | case3 l hl =>
    match l, hl with
    | [], _ => simp
    | [s], _ => simp
    | s :: t :: rest, hl => exact absurd rfl (hl s t rest)

/-- In the order of the buffer, spans none of which overlaps the next precede each other. -/
theorem pairwise_precedes {l : List Span} (hle : l.Pairwise fun s t => s.le t = true)
    (hord : ∀ s ∈ l, s.start ≤ s.stop) (h : l.IsChain fun s t => s.overlaps t = false) :
    l.Pairwise Span.Precedes := by
  rw [← List.isChain_iff_pairwise]
  induction l with
  | nil => exact .nil
  | cons s l ih =>
    cases l with
    | nil => exact .singleton s
    | cons t l =>
      obtain ⟨hs, hle'⟩ := List.pairwise_cons.1 hle
      rw [List.isChain_cons_cons] at h ⊢
      have ht : t.start ≤ t.stop := hord t (by simp)
      exact ⟨Span.precedes_of_le (hs t List.mem_cons_self) ht h.1,
        ih hle' (fun u hu => hord u (List.mem_cons_of_mem s hu)) h.2⟩

/-- Whether no two edits of a list overlap. -/
def Disjoint (es : EditSet) : Prop := es.Pairwise fun d e => d.span.overlaps e.span = false

theorem Disjoint.perm {es' : EditSet} (h : es.Disjoint) (hp : es.Perm es') : es'.Disjoint :=
  List.Pairwise.perm h hp fun {d e} hde => by rw [Span.overlaps_comm, hde]

/-- Neighbours are enough: if none of them overlap then no two edits do. -/
theorem conflict?_eq_none_iff (hord : ∀ e ∈ es, e.span.start ≤ e.span.stop) :
    es.conflict? = none ↔ es.Disjoint := by
  have hperm := List.mergeSort_perm (es.map (·.span)) Span.le
  have hsymm : ∀ {s t : Span}, s.overlaps t = false → t.overlaps s = false :=
    fun h => by rw [Span.overlaps_comm, h]
  have hpairs : es.Disjoint ↔ ((es.map (·.span)).mergeSort Span.le).Pairwise
      fun s t => s.overlaps t = false := by
    rw [hperm.pairwise_iff hsymm, List.pairwise_map]
    rfl
  rw [conflict?, neighbourConflict?_eq_none_iff, hpairs]
  constructor
  · intro h
    refine (pairwise_precedes (List.pairwise_mergeSort Span.le_trans Span.le_total _) ?_ h).imp
      Span.Precedes.overlaps_eq_false
    intro s hs
    obtain ⟨e, he, rfl⟩ := List.mem_map.1 (hperm.mem_iff.1 hs)
    exact hord e he
  · exact List.Pairwise.isChain

/-- The positions of two edits that overlap. -/
theorem not_disjoint_iff :
    ¬ es.Disjoint ↔ ∃ (i j : Nat) (d e : TextEdit), i ≠ j ∧ es[i]? = some d ∧ es[j]? = some e ∧
      d.span.overlaps e.span = true := by
  rw [Disjoint, List.pairwise_iff_getElem]
  constructor
  · intro h
    push Not at h
    obtain ⟨i, j, hi, hj, hlt, hover⟩ := h
    exact ⟨i, j, es[i], es[j], by omega, List.getElem?_eq_getElem hi, List.getElem?_eq_getElem hj,
      by simpa using hover⟩
  · rintro ⟨i, j, d, e, hne, hd, he, hover⟩ h
    obtain ⟨hi, rfl⟩ := List.getElem?_eq_some_iff.1 hd
    obtain ⟨hj, rfl⟩ := List.getElem?_eq_some_iff.1 he
    rcases Nat.lt_or_gt_of_ne hne with hlt | hlt
    · rw [h i j hi hj hlt] at hover
      cases hover
    · rw [Span.overlaps_comm, h j i hj hi hlt] at hover
      cases hover

/-! ### When edits can be made -/

/-- Edits are refused for the first span that does not fit, else for two neighbours that overlap. -/
theorem validate_cases (b : Buffer) (es : EditSet) :
    (∃ e ∈ es, ¬ e.span.Fits b.text ∧ es.validate b = .error (.spanOutOfBounds e.span b.size)) ∨
    (∀ e ∈ es, e.span.Fits b.text) ∧
      ((∃ s t, es.validate b = .error (.overlappingEdits s t)) ∧ ¬ es.Disjoint ∨
        es.validate b = .ok () ∧ es.Disjoint) := by
  have hsome : ∀ e : TextEdit, (b.slice? e.span.start e.span.stop).isNone = true ↔
      ¬ e.span.Fits b.text := by
    intro e
    rw [← Span.isSome_slice?_iff, Buffer.slice?]
    simp
  cases hfind : es.find? fun e => (b.slice? e.span.start e.span.stop).isNone with
  | some e =>
    have hnone : (b.slice? e.span.start e.span.stop).isNone = true :=
      List.find?_some (p := fun e : TextEdit => (b.slice? e.span.start e.span.stop).isNone) hfind
    refine .inl ⟨e, List.mem_of_find?_eq_some hfind, (hsome e).1 hnone, ?_⟩
    rw [validate, hfind]
  | none =>
    have hfits : ∀ e ∈ es, e.span.Fits b.text := by
      intro e he
      by_contra hne
      exact List.find?_eq_none.1 hfind e he ((hsome e).2 hne)
    refine .inr ⟨hfits, ?_⟩
    have hdisjoint := conflict?_eq_none_iff fun e he => (hfits e he).1
    cases hconflict : es.conflict? with
    | none => exact .inr ⟨by rw [validate, hfind, hconflict], hdisjoint.1 hconflict⟩
    | some p =>
      refine .inl ⟨⟨p.1, p.2, by rw [validate, hfind, hconflict]⟩, fun h => ?_⟩
      rw [hdisjoint.2 h] at hconflict
      cases hconflict

theorem validate_eq_ok_iff :
    es.validate b = .ok () ↔ (∀ e ∈ es, e.span.Fits b.text) ∧ es.Disjoint := by
  rcases validate_cases b es with ⟨e, he, hne, h⟩ | ⟨hfits, ⟨⟨s, t, h⟩, hne⟩ | ⟨h, hd⟩⟩
  · refine ⟨fun hok => ?_, fun hok => absurd (hok.1 e he) hne⟩
    rw [h] at hok
    cases hok
  · refine ⟨fun hok => ?_, fun hok => absurd hok.2 hne⟩
    rw [h] at hok
    cases hok
  · exact ⟨fun _ => ⟨hfits, hd⟩, fun _ => h⟩

theorem apply_of_validate_error {err : EditError} (h : es.validate b = .error err) :
    es.apply b = .error err := by
  rw [apply, h]
  rfl

theorem apply_of_validate_ok (h : es.validate b = .ok ()) :
    es.apply b = .ok (b.withText (es.replaceAll b.text)) := by
  rw [apply, h]
  rfl

/-! ### The text with every span replaced -/

/-- The text from byte `pos` on, with what stands in the spans of edits replaced and what stands
between them copied.  The edits come in order, and all their spans are offsets of `text`. -/
def weave (text : Text) : Nat → EditSet → Text
  | pos, [] => text.dropBytes pos
  | pos, e :: es => text.between pos e.span.start ++ e.text ++ weave text e.span.stop es

/-- Whether edits come in the order of the buffer without overlap. -/
def InOrder (es : EditSet) : Prop := es.Pairwise fun d e => d.span.Precedes e.span

theorem InOrder.disjoint (h : es.InOrder) : es.Disjoint :=
  List.Pairwise.imp Span.Precedes.overlaps_eq_false h

/-- Edits from the last to the first. -/
def lastFirst (es : EditSet) : EditSet :=
  es.mergeSort fun d e => decide (e.span.start ≤ d.span.start)

theorem pairwise_lastFirst (es : EditSet) :
    es.lastFirst.Pairwise fun d e => e.span.start ≤ d.span.start := by
  have htrans : ∀ d e f : TextEdit, decide (e.span.start ≤ d.span.start) = true →
      decide (f.span.start ≤ e.span.start) = true →
      decide (f.span.start ≤ d.span.start) = true := by
    intro d e f h h'
    simp only [decide_eq_true_eq] at *
    omega
  have htotal : ∀ d e : TextEdit, (decide (e.span.start ≤ d.span.start) ||
      decide (d.span.start ≤ e.span.start)) = true := by
    intro d e
    simp only [Bool.or_eq_true, decide_eq_true_eq]
    omega
  exact (List.pairwise_mergeSort htrans htotal es).imp fun h => by simpa using h

/-- Edits that do not overlap can be brought in order, by reversing the order in which they are
made. -/
theorem exists_inOrder (hfits : ∀ e ∈ es, e.span.Fits text) (h : es.Disjoint) :
    es.lastFirst.reverse.Perm es ∧ InOrder es.lastFirst.reverse := by
  have hperm : es.lastFirst.Perm es := List.mergeSort_perm es _
  refine ⟨(List.reverse_perm _).trans hperm, ?_⟩
  rw [InOrder, List.pairwise_reverse]
  refine List.Pairwise.imp_of_mem ?_
    (List.pairwise_and_iff.2 ⟨es.pairwise_lastFirst, h.perm hperm.symm⟩)
  intro d e hd _ hde
  have hle := (hfits d (hperm.mem_iff.1 hd)).1
  obtain ⟨hstart, hover⟩ := hde
  rw [Span.overlaps_comm] at hover
  refine Span.precedes_of_le ?_ hle hover
  simp only [Span.overlaps, Bool.or_eq_false_iff, beq_eq_false_iff_ne] at hover
  simp only [Span.le, Bool.or_eq_true, decide_eq_true_eq]
  exact .inl (by omega)

/-- There is one order only: that of the starts. -/
theorem eq_of_inOrder {fs : EditSet} (hp : es.Perm fs) (h : es.InOrder) (h' : fs.InOrder) :
    es = fs := by
  refine List.Perm.eq_of_pairwise (fun d e _ _ hde hed => ?_) h h' hp
  exact absurd (Nat.lt_trans hde.1 hed.1) (Nat.lt_irrefl _)

/-! ### Splices -/

/-- One edit made in place, provided that its span fits the buffer as it is then; the line table is
built anew. -/
def splice? (b : Buffer) (e : TextEdit) : Option Buffer :=
  if (b.slice? e.span.start e.span.stop).isSome then
    some (b.withText (b.text.splice e.span.start e.span.stop e.text))
  else none

theorem takeBytes_append_between {m n : Nat} (h : m ≤ n) (t : Text) :
    t.takeBytes m ++ t.between m n = t.takeBytes n := by
  have hprefix : (t.takeBytes n).takeBytes m = t.takeBytes m := by
    induction t generalizing m n with
    | nil => rfl
    | cons c cs ih =>
      by_cases hm : c.utf8Size ≤ m
      · have hn : c.utf8Size ≤ n := by omega
        simp [Text.takeBytes, hm, hn, ih (show m - c.utf8Size ≤ n - c.utf8Size by omega)]
      · by_cases hn : c.utf8Size ≤ n <;> simp [Text.takeBytes, hm, hn]
  rw [Text.between, ← hprefix, Text.takeBytes_append_dropBytes]

/-- A splice of a text that has been changed only after the span. -/
theorem splice?_of_fits {e : TextEdit} (h : e.span.Fits b.text) (x : Text) :
    splice? (b.withText (b.text.takeBytes e.span.stop ++ x)) e =
      some (b.withText (b.text.takeBytes e.span.start ++ e.text ++ x)) := by
  obtain ⟨hle, hstart, hstop⟩ := h
  obtain ⟨p, q, y, htext, hp, hq⟩ := Text.exists_append_of_isBoundary hstart hstop hle
  have htake : b.text.takeBytes e.span.stop = p ++ q := by
    rw [htext, hq, ← List.append_assoc, ← Text.size_append, Text.takeBytes_size]
  have htake' : b.text.takeBytes e.span.start = p := by
    rw [htext, hp, Text.takeBytes_size]
  have hslice : (b.withText (p ++ q ++ x)).slice? e.span.start e.span.stop = some q := by
    rw [Buffer.slice?, hp, hq, Buffer.withText, List.append_assoc, Text.slice?_append]
  have hsplice : (b.withText (p ++ q ++ x)).text.splice e.span.start e.span.stop e.text =
      p ++ e.text ++ x := by
    rw [Buffer.withText, hp, hq, List.append_assoc, Text.splice_append_append, List.append_assoc]
  rw [htake, htake', splice?, hslice, hsplice]
  rfl

/-- Splices from the last edit to the first, every one of which fits, lead to the text with all
spans replaced. -/
theorem foldlM_splice (h : es.InOrder) (hfits : ∀ e ∈ es, e.span.Fits b.text) (pos : Nat)
    (hpos : ∀ e ∈ es, pos ≤ e.span.start) :
    es.reverse.foldlM splice? (b.withText b.text) =
      some (b.withText (b.text.takeBytes pos ++ weave b.text pos es)) := by
  induction es generalizing pos with
  | nil => simp [weave]
  | cons e es ih =>
    obtain ⟨he, hes⟩ := List.pairwise_cons.1 h
    have hrest := ih hes (fun d hd => hfits d (List.mem_cons_of_mem e hd)) e.span.stop
      fun d hd => (he d hd).2
    have hlast := splice?_of_fits (hfits e List.mem_cons_self) (weave b.text e.span.stop es)
    rw [List.reverse_cons, List.foldlM_append, hrest]
    show (splice? _ e >>= fun c => some c) = _
    rw [hlast, weave, ← takeBytes_append_between (hpos e List.mem_cons_self)]
    simp

theorem foldl_of_foldlM {l : EditSet} (h : l.foldlM splice? b = some b') :
    b'.text = l.foldl (fun t e => t.splice e.span.start e.span.stop e.text) b.text := by
  induction l generalizing b with
  | nil =>
    cases h
    rfl
  | cons e l ih =>
    rw [List.foldlM_cons] at h
    obtain ⟨c, hc, hrest⟩ := Option.bind_eq_some_iff.1 h
    unfold splice? at hc
    split at hc
    · cases hc
      exact ih hrest
    · cases hc

/-- Edits that can be made, in whatever order they are listed, replace every span. -/
theorem lastFirst_splices (hv : es.validate b = .ok ()) {fs : EditSet} (hp : fs.Perm es)
    (h : fs.InOrder) :
    es.lastFirst.foldlM splice? (b.withText b.text) = some (b.withText (weave b.text 0 fs)) := by
  obtain ⟨hfits, hdisjoint⟩ := validate_eq_ok_iff.1 hv
  obtain ⟨hperm, hord⟩ := exists_inOrder hfits hdisjoint
  have heq : es.lastFirst = fs.reverse := by
    rw [← eq_of_inOrder (hperm.trans hp.symm) hord h, List.reverse_reverse]
  have hsplices := foldlM_splice h (fun e he => hfits e (hp.mem_iff.1 he)) 0 fun e _ =>
    Nat.zero_le _
  rwa [Text.takeBytes_zero, List.nil_append, ← heq] at hsplices

theorem replaceAll_eq_weave (hv : es.validate b = .ok ()) {fs : EditSet} (hp : fs.Perm es)
    (h : fs.InOrder) : es.replaceAll b.text = weave b.text 0 fs :=
  (foldl_of_foldlM (lastFirst_splices hv hp h)).symm

/-! ### In place -/

/-- What a caller is left with who has edits made in a buffer of their own: whether they are
refused, and the buffer as it then is.  Nothing is left if one of the splices does not fit. -/
def applyInPlace (b : Buffer) (es : EditSet) : Option (Except EditError Unit × Buffer) :=
  match es.validate b with
  | .error err => some (.error err, b)
  | .ok () => (es.lastFirst.foldlM splice? b).map fun b' => (.ok (), b')

/-- Made in place, edits never run into a splice that does not fit, and a refusal leaves the buffer
as it was. -/
theorem applyInPlace_eq (b : Buffer) (es : EditSet) :
    es.applyInPlace b = some (match es.apply b with
      | .ok b' => (.ok (), b')
      | .error err => (.error err, b)) := by
  cases hv : es.validate b with
  | error err => rw [applyInPlace, hv, apply_of_validate_error hv]
  | ok u =>
    obtain ⟨hfits, hdisjoint⟩ := validate_eq_ok_iff.1 hv
    obtain ⟨hperm, hord⟩ := exists_inOrder hfits hdisjoint
    have hsplices := lastFirst_splices hv hperm hord
    rw [Buffer.withText_text] at hsplices
    rw [applyInPlace, hv, apply_of_validate_ok hv, replaceAll_eq_weave hv hperm hord]
    dsimp only
    rw [hsplices, Option.map_some]

/-- **Edits are one simultaneous substitution.**  They are refused for a span exactly if some span
has its bounds in the wrong order, ends past the buffer or splits a character; otherwise they are
refused for an overlap exactly if the spans at some two places of the list overlap; and otherwise
they are made.  Made in place, splice by splice, they never leave the bounds of the buffer or split
a character, and a refusal leaves the buffer as it was.  After edits that are made the text is the
old one with every span replaced, the spans read as offsets of the old text; their order in the
list does not count; and the line table is that of the new text. -/
theorem apply_is_substitution (b : Buffer) (es : EditSet) :
    ((∃ s n, es.apply b = .error (.spanOutOfBounds s n)) ↔
      ∃ e ∈ es, e.span.stop < e.span.start ∨ b.size < e.span.stop ∨
        b.text.InsideChar e.span.start ∨ b.text.InsideChar e.span.stop) ∧
    ((∃ s t, es.apply b = .error (.overlappingEdits s t)) ↔
      (¬ ∃ s n, es.apply b = .error (.spanOutOfBounds s n)) ∧
        ∃ (i j : Nat) (d e : TextEdit), i ≠ j ∧ es[i]? = some d ∧ es[j]? = some e ∧
          d.span.overlaps e.span = true) ∧
    ((∃ b', es.apply b = .ok b') ↔
      (¬ ∃ s n, es.apply b = .error (.spanOutOfBounds s n)) ∧
        ¬ ∃ s t, es.apply b = .error (.overlappingEdits s t)) ∧
    es.applyInPlace b = some (match es.apply b with
      | .ok b' => (.ok (), b')
      | .error err => (.error err, b)) ∧
    ∀ b', es.apply b = .ok b' →
      (∃ fs : EditSet, fs.Perm es ∧ fs.InOrder) ∧
      (∀ fs : EditSet, fs.Perm es → fs.InOrder → b'.text = weave b.text 0 fs) ∧
      (∀ fs : EditSet, fs.Perm es → fs.apply b = .ok b') ∧
      b'.tabWidth = b.tabWidth ∧ b'.lines.toList.map Line.start = b'.text.lineStarts := by
  have hbad : (∃ e ∈ es, e.span.stop < e.span.start ∨ b.size < e.span.stop ∨
      b.text.InsideChar e.span.start ∨ b.text.InsideChar e.span.stop) ↔
      ∃ e ∈ es, ¬ e.span.Fits b.text := by
    simp only [Span.not_fits_iff, Buffer.size]
  rw [hbad, ← not_disjoint_iff, applyInPlace_eq]
  rcases validate_cases b es with ⟨e, he, hne, h⟩ | ⟨hfits, ⟨⟨s, t, h⟩, hne⟩ | ⟨h, hd⟩⟩
  · rw [apply_of_validate_error h]
    refine ⟨⟨fun _ => ⟨e, he, hne⟩, fun _ => ⟨_, _, rfl⟩⟩, ?_, ?_, rfl, ?_⟩
    · simp
    · simp
    · intro b' h'
      cases h'
  · have hfits' : ¬ ∃ e ∈ es, ¬ e.span.Fits b.text := fun ⟨e, he, hn⟩ => hn (hfits e he)
    rw [apply_of_validate_error h]
    refine ⟨⟨?_, fun h => absurd h hfits'⟩, ?_, ?_, rfl, ?_⟩
    · rintro ⟨s', n, h'⟩
      cases h'
    · simpa using hne
    · simp
    · intro b' h'
      cases h'
  · have hfits' : ¬ ∃ e ∈ es, ¬ e.span.Fits b.text := fun ⟨e, he, hn⟩ => hn (hfits e he)
    rw [apply_of_validate_ok h]
    refine ⟨⟨?_, fun h => absurd h hfits'⟩, ?_, ?_, rfl, ?_⟩
    · rintro ⟨s', n, h'⟩
      cases h'
    · simpa using hd
    · simp
    · rintro b' ⟨⟩
      obtain ⟨hperm, hord⟩ := exists_inOrder hfits hd
      refine ⟨⟨_, hperm, hord⟩, fun fs hp ho => replaceAll_eq_weave h hp ho, ?_, rfl, ?_⟩
      · intro fs hp
        have hv : fs.validate b = .ok () :=
          validate_eq_ok_iff.2 ⟨fun e he => hfits e (hp.mem_iff.1 he), hd.perm hp.symm⟩
        rw [apply_of_validate_ok hv, replaceAll_eq_weave h hperm hord,
          replaceAll_eq_weave hv (hperm.trans hp.symm) hord]
      · exact Buffer.map_start_lines _

end EditSet

end Offside
