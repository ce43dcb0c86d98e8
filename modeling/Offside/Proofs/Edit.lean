import Offside.Document
import Offside.Proofs.Text.Boundary

/-!
# What edits leave alone

* `EditSet.slice_of_validate`: the spans of edits that can be applied are slices of the buffer;
* `EditSet.replaceAll_append`: edits that start after a prefix keep it;
* `EditSet.exists_prefix_of_apply`: edits leave the text before the first of them as it was;
* `Document.apply_cases`, `apply_error`: what edits do to a document, and when they are refused;
* `Document.apply_single`: a single edit.
-/

namespace Offside

open Text (size IsBoundary)

theorem Text.isBoundary_of_slice {t r : Text} {start stop : Nat}
    (h : t.slice? start stop = some r) :
    start ≤ stop ∧ IsBoundary t start ∧ IsBoundary t stop := by
  unfold Text.slice? at h
  split at h
  · next hb => exact hb
  · cases h

namespace Text

theorem splice_append {p : Text} {start : Nat} (h : size p ≤ start) (x r : Text) (stop : Nat) :
    ∃ y, (p ++ x).splice start stop r = p ++ y := by
  obtain ⟨k, rfl⟩ := Nat.exists_eq_add_of_le h
  refine ⟨x.takeBytes k ++ r ++ (p ++ x).dropBytes stop, ?_⟩
  simp [splice, takeBytes_size_add]

end Text

namespace EditSet

variable {b b' : Buffer} {es : EditSet}

/-- The spans of edits that can be applied are slices of the buffer. -/
theorem slice_of_validate (h : es.validate b = .ok ()) {e : TextEdit} (he : e ∈ es) :
    ∃ r, b.slice? e.span.start e.span.stop = some r := by
  unfold validate at h
  split at h
  · cases h
  · next hnone =>
    have := List.find?_eq_none.1 hnone e he
    exact Option.ne_none_iff_exists'.1 (by simpa using this)

/-- Edits that start after a prefix keep it. -/
theorem foldl_splice_append {p : Text} (es : List TextEdit) (h : ∀ e ∈ es, size p ≤ e.span.start)
    (x : Text) :
    ∃ y, es.foldl (fun t e => t.splice e.span.start e.span.stop e.text) (p ++ x) = p ++ y := by
  induction es generalizing x with
  | nil => exact ⟨x, rfl⟩
  | cons e es ih =>
    obtain ⟨y, hy⟩ := Text.splice_append (h e List.mem_cons_self) x e.text e.span.stop
    obtain ⟨z, hz⟩ := ih (fun q hq => h q (List.mem_cons_of_mem e hq)) y
    exact ⟨z, by rw [List.foldl_cons, hy, hz]⟩

theorem replaceAll_append (es : EditSet) {p : Text} (h : ∀ e ∈ es, size p ≤ e.span.start) (x : Text) :
    ∃ y, es.replaceAll (p ++ x) = p ++ y :=
  foldl_splice_append _ (fun e he => h e (List.mem_mergeSort.1 he)) x

/-- The first offset of edits is the start of one of them, and none starts before it. -/
theorem firstOffset_spec {first : Nat} (h : es.firstOffset? = some first) :
    (∃ e ∈ es, e.span.start = first) ∧ ∀ e ∈ es, first ≤ e.span.start := by
  obtain ⟨hmem, hle⟩ := List.min?_eq_some_iff.1 h
  refine ⟨List.mem_map.1 hmem, fun e he => hle _ (List.mem_map_of_mem he)⟩

/-- Edits leave the text before the first of them as it was. -/
theorem exists_prefix_of_apply {first : Nat} (h : es.apply b = .ok b')
    (hf : es.firstOffset? = some first) :
    ∃ p x y, b.text = p ++ x ∧ b'.text = p ++ y ∧ size p = first := by
  obtain ⟨hv, rfl⟩ := eq_of_apply h
  obtain ⟨⟨e, he, hfirst⟩, hle⟩ := firstOffset_spec hf
  obtain ⟨r, hr⟩ := slice_of_validate hv he
  obtain ⟨p, x, hx, hp⟩ := Text.isBoundary_iff.1 (Text.isBoundary_of_slice hr).2.1
  have hp' : size p = first := by rw [← hp, hfirst]
  obtain ⟨y, hy⟩ := replaceAll_append es (p := p) (fun e he => hp' ▸ hle e he) x
  exact ⟨p, x, y, hx, by rw [← hy, ← hx]; rfl, hp'⟩

end EditSet

/-- Edits that are made change nothing, or they change the text and invalidate the cache from the
first of them. -/
theorem Document.apply_cases {d d' : Document} {es : EditSet} {n : Nat}
    (h : d.apply es = .ok (n, d')) :
    (es.withoutNoops d.buffer = [] ∧ n = 0 ∧ d' = d) ∨
    (∃ first, (es.withoutNoops d.buffer).firstOffset? = some first ∧
      (es.withoutNoops d.buffer).apply d.buffer = .ok d'.buffer ∧
      n = (es.withoutNoops d.buffer).length ∧ d'.settings = d.settings ∧
      d'.cache = d.cache.invalidateFrom first ∧ d'.revision = d.revision + 1) := by
  unfold Document.apply at h
  dsimp only at h
  split at h
  · next hnone =>
    cases h
    exact .inl ⟨by simpa [EditSet.firstOffset?] using hnone, rfl, rfl⟩
  · next first hfirst =>
    split at h
    · cases h
    · next buffer hbuffer =>
      cases h
      exact .inr ⟨first, hfirst, hbuffer, rfl, rfl, rfl, rfl⟩

/-- Edits are refused only if those that change something are. -/
theorem Document.apply_error {d : Document} {es : EditSet} {err : EditError}
    (h : d.apply es = .error err) : (es.withoutNoops d.buffer).apply d.buffer = .error err := by
  unfold Document.apply at h
  dsimp only at h
  split at h
  · cases h
  · split at h
    · next hbuffer =>
      cases h
      exact hbuffer
    · cases h

/-! ### A single edit -/

section Single

variable {d : Document} {e : TextEdit} {p q x : Text}

theorem Text.slice?_append (p q x : Text) :
    (p ++ (q ++ x)).slice? (size p) (size p + size q) = some q := by
  have hstop : IsBoundary (p ++ (q ++ x)) (size p + size q) := by
    rw [← List.append_assoc, ← Text.size_append]
    exact Text.isBoundary_size (p ++ q) x
  rw [Text.slice?, if_pos ⟨Nat.le_add_right _ _, Text.isBoundary_size p (q ++ x), hstop⟩,
    Nat.add_sub_cancel_left, Text.dropBytes_size, Text.takeBytes_size]

theorem Text.splice_append_append (p q x r : Text) :
    (p ++ (q ++ x)).splice (size p) (size p + size q) r = p ++ (r ++ x) := by
  rw [Text.splice, Text.takeBytes_size, Text.dropBytes_size_add, Text.dropBytes_size,
    List.append_assoc]

/-- A single edit on boundaries can be applied. -/
theorem EditSet.apply_single {b : Buffer} (htext : b.text = p ++ (q ++ x))
    (hstart : e.span.start = size p) (hstop : e.span.stop = size p + size q) :
    EditSet.apply b [e] = .ok (b.withText (p ++ (e.text ++ x))) := by
  have hslice : b.slice? e.span.start e.span.stop = some q := by
    rw [Buffer.slice?, htext, hstart, hstop, Text.slice?_append]
  have hvalid : EditSet.validate b [e] = .ok () := by
    simp [EditSet.validate, hslice, EditSet.conflict?, EditSet.neighbourConflict?]
  have hreplace : EditSet.replaceAll b.text [e] = p ++ (e.text ++ x) := by
    simp only [EditSet.replaceAll, List.mergeSort_singleton, List.foldl_cons, List.foldl_nil, htext,
      hstart, hstop, Text.splice_append_append]
  rw [EditSet.apply, hvalid, hreplace]
  rfl

/-- A single edit on boundaries puts its text in place of what was there, and changes nothing if that
is the same. -/
theorem Document.apply_single (htext : d.text = p ++ (q ++ x)) (hstart : e.span.start = size p)
    (hstop : e.span.stop = size p + size q) :
    ∃ d', d.apply [e] = .ok (if q = e.text then 0 else 1, d') ∧ d'.text = p ++ (e.text ++ x) ∧
      d'.settings = d.settings ∧ (q = e.text → d' = d) ∧
      (q ≠ e.text → d'.revision = d.revision + 1) := by
  have happly := EditSet.apply_single (b := d.buffer) htext hstart hstop
  have hnoop : e.isNoop d.buffer = decide (q = e.text) := by
    rw [TextEdit.isNoop, Buffer.slice?, show d.buffer.text = _ from htext, hstart, hstop,
      Text.slice?_append]
    by_cases h : q = e.text <;> simp [h]
  have hkept : EditSet.withoutNoops d.buffer [e] = if q = e.text then [] else [e] := by
    by_cases h : q = e.text <;> simp [EditSet.withoutNoops, hnoop, h]
  by_cases hsame : q = e.text
  · refine ⟨d, ?_, by rw [htext, hsame], rfl, fun _ => rfl, fun h => absurd hsame h⟩
    rw [if_pos hsame] at hkept ⊢
    unfold Document.apply
    simp only [hkept, EditSet.firstOffset?, List.map_nil, List.min?_nil]
    rfl
  · rw [if_neg hsame] at hkept
    cases h : d.apply [e] with
    | error err =>
      have herr := Document.apply_error h
      rw [hkept, happly] at herr
      cases herr
    | ok answer =>
      obtain ⟨n, d'⟩ := answer
      rcases Document.apply_cases h with ⟨hnil, -⟩ | ⟨first, -, hbuffer, hn, hsettings, -, hrevision⟩
      · rw [hkept] at hnil
        cases hnil
      · rw [hkept] at hbuffer hn
        rw [happly] at hbuffer
        refine ⟨d', by rw [if_neg hsame, hn]; rfl, ?_, hsettings, fun h => absurd h hsame,
          fun _ => hrevision⟩
        rw [Document.text, ← Except.ok.inj hbuffer]
        rfl

end Single

end Offside
