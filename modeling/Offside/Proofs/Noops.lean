import Offside.Proofs.IndentLines

/-!
# Edits that change nothing

Before a document makes edits it drops those that put back what is there already.  If all edits can
be made then dropping some of them does not show in the text.  It can only hide that two of them
overlap, never a span that does not fit, since what is dropped has been read in the buffer.

* `EditSet.weave_withoutNoops`, `apply_withoutNoops`: the text after the edits that are left;
* `EditSet.find?_withoutNoops`: the spans that do not fit are all still there;
* `Document.apply_eq_error_iff`, `buffer_of_apply`, `revision_of_apply`: edits of a document;
* `Document.Held`, `Held.applyInPlace`: a document as its owner sees it, step by step;
* `dropping_noops_is_invisible`.
-/

namespace Offside

/-! ### Stretches of a text -/

namespace Text

theorem between_append_between {m n k : Nat} (h : m ≤ n) (h' : n ≤ k) (t : Text) :
    t.between m n ++ t.between n k = t.between m k := by
  refine (List.append_right_inj (t.takeBytes m)).1 ?_
  rw [← List.append_assoc, EditSet.takeBytes_append_between h, EditSet.takeBytes_append_between h',
    EditSet.takeBytes_append_between (h.trans h')]

theorem between_append_dropBytes {m n : Nat} (h : m ≤ n) (t : Text) :
    t.between m n ++ t.dropBytes n = t.dropBytes m := by
  refine (List.append_right_inj (t.takeBytes m)).1 ?_
  rw [← List.append_assoc, EditSet.takeBytes_append_between h, takeBytes_append_dropBytes,
    takeBytes_append_dropBytes]

theorem between_of_slice? {t r : Text} {start stop : Nat} (h : t.slice? start stop = some r) :
    t.between start stop = r := by
  obtain ⟨hle, hstart, hstop⟩ := isBoundary_of_slice h
  obtain ⟨p, q, x, rfl, rfl, rfl⟩ := exists_append_of_isBoundary hstart hstop hle
  rw [slice?_append] at h
  cases h
  rw [between, ← List.append_assoc, ← size_append, takeBytes_size, dropBytes_size]

end Text

/-! ### Lists of edits -/

theorem TextEdit.isNoop_iff {b : Buffer} {e : TextEdit} :
    e.isNoop b = true ↔ b.slice? e.span.start e.span.stop = some e.text := by
  rw [isNoop, beq_iff_eq]

namespace EditSet

variable {b : Buffer} {es : EditSet} {text : Text}

/-- What stands before the first edit can be copied in two pieces. -/
theorem weave_of_le {pos mid : Nat} (h : pos ≤ mid) (hes : ∀ e ∈ es, mid ≤ e.span.start) :
    weave text pos es = text.between pos mid ++ weave text mid es := by
  cases es with
  | nil => rw [weave, weave, Text.between_append_dropBytes h]
  | cons e es =>
    rw [weave, weave, ← List.append_assoc, ← List.append_assoc,
      Text.between_append_between h (hes e List.mem_cons_self)]

/-- Edits that put back what is there can be dropped: the stretch that they cover is then copied. -/
theorem weave_withoutNoops (h : es.InOrder) (hfits : ∀ e ∈ es, e.span.Fits b.text) (pos : Nat)
    (hpos : ∀ e ∈ es, pos ≤ e.span.start) :
    weave b.text pos (es.withoutNoops b) = weave b.text pos es := by
  induction es generalizing pos with
  | nil => rfl
  | cons e es ih =>
    obtain ⟨he, hes⟩ := List.pairwise_cons.1 h
    have hle := (hfits e List.mem_cons_self).1
    have hstart := hpos e List.mem_cons_self
    have hrest := ih hes (fun d hd => hfits d (List.mem_cons_of_mem e hd)) e.span.stop
      fun d hd => (he d hd).2
    by_cases hnoop : e.isNoop b = true
    · have hkept : withoutNoops b (e :: es) = withoutNoops b es :=
        List.filter_cons_of_neg (by simpa using hnoop)
      have hafter : ∀ d ∈ withoutNoops b es, e.span.stop ≤ d.span.start :=
        fun d hd => (he d (List.mem_of_mem_filter hd)).2
      have hcovered : b.text.between e.span.start e.span.stop = e.text :=
        Text.between_of_slice? (TextEdit.isNoop_iff.1 hnoop)
      rw [hkept, weave_of_le (hstart.trans hle) hafter, hrest, weave,
        ← Text.between_append_between hstart hle, hcovered]
    · have hkept : withoutNoops b (e :: es) = e :: withoutNoops b es :=
        List.filter_cons_of_pos (by simpa using hnoop)
      rw [hkept, weave, weave, hrest]

theorem withoutNoops_eq_nil_iff : es.withoutNoops b = [] ↔
    ∀ e ∈ es, b.slice? e.span.start e.span.stop = some e.text := by
  rw [withoutNoops, List.filter_eq_nil_iff]
  refine forall₂_congr fun e _ => ?_
  rw [← TextEdit.isNoop_iff, Bool.not_eq_true', Bool.not_eq_false]

theorem length_withoutNoops (b : Buffer) (es : EditSet) :
    (es.withoutNoops b).length = es.countP fun e =>
      decide (b.slice? e.span.start e.span.stop ≠ some e.text) := by
  rw [withoutNoops, ← List.countP_eq_length_filter]
  refine List.countP_congr fun e _ => ?_
  simp [← TextEdit.isNoop_iff]

theorem validate_withoutNoops (h : es.validate b = .ok ()) :
    (es.withoutNoops b).validate b = .ok () := by
  obtain ⟨hfits, hdisjoint⟩ := validate_eq_ok_iff.1 h
  exact validate_eq_ok_iff.2
    ⟨fun e he => hfits e (List.mem_of_mem_filter he), List.Pairwise.filter _ hdisjoint⟩

/-- Edits that can be made lead to the same buffer without those that change nothing. -/
theorem apply_withoutNoops (h : es.validate b = .ok ()) :
    (es.withoutNoops b).apply b = es.apply b := by
  have hkept := validate_withoutNoops h
  obtain ⟨hfits, hdisjoint⟩ := validate_eq_ok_iff.1 h
  obtain ⟨hperm, hord⟩ := exists_inOrder hfits hdisjoint
  have hwoven := weave_withoutNoops hord (fun e he => hfits e (hperm.mem_iff.1 he)) 0
    fun e _ => Nat.zero_le _
  rw [apply_of_validate_ok h, apply_of_validate_ok hkept, replaceAll_eq_weave h hperm hord,
    replaceAll_eq_weave hkept (hperm.filter _) (hord.filter _), ← hwoven]
  rfl

/-- The first span that does not fit is not dropped. -/
theorem find?_withoutNoops (b : Buffer) (es : EditSet) :
    ((es.withoutNoops b).find? fun e => (b.slice? e.span.start e.span.stop).isNone) =
      es.find? fun e => (b.slice? e.span.start e.span.stop).isNone := by
  rw [withoutNoops, List.find?_filter]
  congr 1
  funext e
  rw [TextEdit.isNoop]
  cases b.slice? e.span.start e.span.stop with
  | none => rfl
  | some r => simp

theorem apply_eq_spanOutOfBounds_iff {s : Span} {n : Nat} :
    es.apply b = .error (.spanOutOfBounds s n) ↔
      ∃ e, (es.find? fun e => (b.slice? e.span.start e.span.stop).isNone) = some e ∧
        e.span = s ∧ b.size = n := by
  rw [apply, validate]
  cases es.find? fun e => (b.slice? e.span.start e.span.stop).isNone with
  | some e =>
    constructor
    · rintro ⟨⟩
      exact ⟨e, rfl, rfl, rfl⟩
    · rintro ⟨e, ⟨⟩, rfl, rfl⟩
      rfl
  | none =>
    refine iff_of_false ?_ (by simp)
    cases es.conflict? with
    | none => rintro ⟨⟩
    | some p => rintro ⟨⟩

theorem ne_nil_of_firstOffset? {first : Nat} (h : es.firstOffset? = some first) : es ≠ [] := by
  rintro rfl
  cases h

theorem apply_nil (b : Buffer) : apply b [] = .ok b := by
  have hvalid : validate b [] = .ok () := validate_eq_ok_iff.2 ⟨by simp, .nil⟩
  rw [apply_of_validate_ok hvalid]
  simp [replaceAll, b.withText_text]

end EditSet

/-! ### Documents -/

namespace Document

variable {d e : Document} {es : EditSet} {n : Nat}

/-- Edits that are made lead to the buffer after those of them that change something. -/
theorem buffer_of_apply (h : d.apply es = .ok (n, e)) :
    (es.withoutNoops d.buffer).apply d.buffer = .ok e.buffer ∧
      n = (es.withoutNoops d.buffer).length := by
  rcases apply_cases h with ⟨hnil, rfl, rfl⟩ | ⟨first, -, hbuffer, hn, -⟩
  · rw [hnil]
    exact ⟨EditSet.apply_nil _, rfl⟩
  · exact ⟨hbuffer, hn⟩

theorem apply_eq_error_iff {err : EditError} :
    d.apply es = .error err ↔ (es.withoutNoops d.buffer).apply d.buffer = .error err := by
  refine ⟨apply_error, fun h => ?_⟩
  cases happly : d.apply es with
  | error err' =>
    rw [apply_error happly] at h
    rw [Except.error.inj h]
  | ok answer =>
    rw [(buffer_of_apply happly).1] at h
    cases h

/-- Edits that can be made in the buffer are made, and those that change something are counted. -/
theorem exists_apply_of_validate (h : es.validate d.buffer = .ok ()) :
    ∃ e, d.apply es = .ok (es.countP fun edit =>
        decide (d.buffer.slice? edit.span.start edit.span.stop ≠ some edit.text), e) ∧
      es.apply d.buffer = .ok e.buffer := by
  obtain ⟨e, happly, -⟩ := apply_of_validate (EditSet.validate_withoutNoops h)
  have hbuffer := (buffer_of_apply happly).1
  rw [EditSet.length_withoutNoops] at happly
  exact ⟨e, happly, (EditSet.apply_withoutNoops h).symm.trans hbuffer⟩

/-- Edits that a document refuses cannot be made in its buffer. -/
theorem exists_error_of_apply {err : EditError} (h : d.apply es = .error err) :
    ∃ err', es.apply d.buffer = .error err' := by
  cases hall : es.apply d.buffer with
  | error err' => exact ⟨err', rfl⟩
  | ok b =>
    have hkept := EditSet.apply_withoutNoops (EditSet.eq_of_apply hall).1
    rw [apply_error h, hall] at hkept
    cases hkept

/-- The revision after edits that are made. -/
theorem revision_of_apply (h : d.apply es = .ok (n, e)) :
    (es.withoutNoops d.buffer = [] ∧ e = d) ∨
      (es.withoutNoops d.buffer ≠ [] ∧ e.revision = d.revision + 1) := by
  rcases apply_cases h with ⟨hnil, -, rfl⟩ | ⟨first, hfirst, -, -, -, -, hrevision⟩
  · exact .inl ⟨hnil, rfl⟩
  · exact .inr ⟨EditSet.ne_nil_of_firstOffset? hfirst, hrevision⟩

/-- A single edit that changes something changes the text. -/
theorem text_ne_of_apply_single {edit : TextEdit} (h : d.apply [edit] = .ok (n, e))
    (hne : d.buffer.slice? edit.span.start edit.span.stop ≠ some edit.text) : e.text ≠ d.text := by
  have hkept : EditSet.withoutNoops d.buffer [edit] = [edit] := by
    refine List.filter_cons_of_pos ?_
    simpa [← TextEdit.isNoop_iff] using hne
  have hvalid := (EditSet.eq_of_apply (hkept ▸ (buffer_of_apply h).1)).1
  obtain ⟨hle, hstart, hstop⟩ := (EditSet.validate_eq_ok_iff.1 hvalid).1 edit List.mem_cons_self
  obtain ⟨p, q, x, htext, hp, hq⟩ := Text.exists_append_of_isBoundary hstart hstop hle
  obtain ⟨e', happly, htext', -⟩ := apply_single (d := d) (e := edit) htext hp hq
  rw [h] at happly
  obtain ⟨-, rfl⟩ := Prod.mk.inj (Except.ok.inj happly)
  intro hsame
  -- the text around the span is the same, so the span held the new text before
  rw [htext', show d.text = _ from htext, List.append_cancel_left_eq, List.append_left_inj] at hsame
  refine hne ?_
  rw [Buffer.slice?, htext, hp, hq, Text.slice?_append, hsame]

/-! ### In place -/

/-- What a document holds that edits may change. -/
structure Held where
  buffer : Buffer
  cache : Lexical.Cache
  revision : Nat

/-- What a document holds at present. -/
def held (d : Document) : Held := ⟨d.buffer, d.cache, d.revision⟩

/-- What an owner is left with who has edits made in a document: the number of edits that change the
text, or why they are refused, and what the document then holds.  The buffer, the cache and the
revision are changed one after the other.  Nothing is left if a splice does not fit. -/
def Held.applyInPlace (s : Held) (es : EditSet) : Option (Except EditError Nat × Held) := do
  let kept := es.withoutNoops s.buffer
  if kept.isEmpty then return (.ok 0, s)
  let (made, buffer) ← kept.applyInPlace s.buffer
  let s := { s with buffer }
  match made with
  | .error err => return (.error err, s)
  | .ok () =>
    let s := match kept.firstOffset? with
      | some first => { s with cache := s.cache.invalidateFrom first }
      | none => s
    return (.ok kept.length, { s with revision := s.revision + 1 })

/-- Made in place, edits lead to the document that they are said to lead to, and a refusal leaves
all as it was. -/
theorem applyInPlace_held (d : Document) (es : EditSet) :
    d.held.applyInPlace es = some (match d.apply es with
      | .ok (n, e) => (.ok n, e.held)
      | .error err => (.error err, d.held)) := by
  cases happly : d.apply es with
  | error err =>
    have hrefused := apply_error happly
    have hne : es.withoutNoops d.buffer ≠ [] := by
      intro hnil
      rw [hnil, EditSet.apply_nil] at hrefused
      cases hrefused
    simp only [Held.applyInPlace, held, List.isEmpty_eq_false_iff.2 hne, EditSet.applyInPlace_eq,
      hrefused]
    rfl
  | ok answer =>
    obtain ⟨n, e⟩ := answer
    rcases apply_cases happly with ⟨hnil, rfl, rfl⟩ | ⟨first, hfirst, hbuffer, rfl, -, hcache, hrev⟩
    · simp only [Held.applyInPlace, held, hnil]
      rfl
    · have hne := EditSet.ne_nil_of_firstOffset? hfirst
      simp only [Held.applyInPlace, held, List.isEmpty_eq_false_iff.2 hne, EditSet.applyInPlace_eq,
        hbuffer, hfirst, hcache, hrev]
      rfl

end Document

/-- **Dropping edits that change nothing does not show, and the revision tells of changes.**  If
edits can be made in the buffer of a document then the document makes them.  It then has the buffer
that all of them lead to, and counts those whose text is not what they cover.  Edits are refused for
a span that does not fit in the document exactly if they are in its buffer; and if the document
refuses them, for whatever reason, its buffer does.  Made in place, they never run into a splice
that does not fit, and if they are refused then the buffer, the cache and the revision are what they
were.  The revision stays if they are refused or none of them changes anything, and else it grows by
one.  So it is another one whenever the text is, and for a single edit the text is another one
whenever the revision is. -/
theorem dropping_noops_is_invisible (d : Document) (es : EditSet) :
    (es.validate d.buffer = .ok () → ∃ e,
      d.apply es = .ok (es.countP fun edit =>
        decide (d.buffer.slice? edit.span.start edit.span.stop ≠ some edit.text), e) ∧
      es.apply d.buffer = .ok e.buffer) ∧
    (∀ s n, d.apply es = .error (.spanOutOfBounds s n) ↔
      es.apply d.buffer = .error (.spanOutOfBounds s n)) ∧
    (∀ err, d.apply es = .error err → ∃ err', es.apply d.buffer = .error err') ∧
    ∃ result after, d.held.applyInPlace es = some (result, after) ∧
      (∀ n e, d.apply es = .ok (n, e) → result = .ok n ∧ after = e.held) ∧
      (∀ err, d.apply es = .error err → result = .error err ∧ after = d.held) ∧
      d.revision ≤ after.revision ∧
      (after.revision = d.revision ↔ (∃ err, result = .error err) ∨
        ∀ edit ∈ es, d.buffer.slice? edit.span.start edit.span.stop = some edit.text) ∧
      (after.revision ≠ d.revision → after.revision = d.revision + 1) ∧
      (after.buffer.text ≠ d.text → after.revision ≠ d.revision) ∧
      ∀ edit, es = [edit] → after.revision ≠ d.revision → after.buffer.text ≠ d.text := by
  refine ⟨Document.exists_apply_of_validate, fun s n => ?_,
    fun err => Document.exists_error_of_apply, ?_⟩
  · rw [Document.apply_eq_error_iff, EditSet.apply_eq_spanOutOfBounds_iff,
      EditSet.apply_eq_spanOutOfBounds_iff, EditSet.find?_withoutNoops]
  · have hplace := d.applyInPlace_held es
    cases happly : d.apply es with
    | error err =>
      rw [happly] at hplace
      refine ⟨_, _, hplace, nofun, ?_, Nat.le_refl _, iff_of_true rfl (.inl ⟨err, rfl⟩),
        fun h => absurd rfl h, fun h => absurd rfl h, fun _ _ h => absurd rfl h⟩
      rintro err' ⟨⟩
      exact ⟨rfl, rfl⟩
    | ok answer =>
      obtain ⟨n, e⟩ := answer
      rw [happly] at hplace
      refine ⟨_, _, hplace, ?_, nofun, ?_⟩
      · rintro n' e' ⟨⟩
        exact ⟨rfl, rfl⟩
      rcases Document.revision_of_apply happly with ⟨hnil, rfl⟩ | ⟨hsome, hrevision⟩
      · exact ⟨Nat.le_refl _, iff_of_true rfl (.inr (EditSet.withoutNoops_eq_nil_iff.1 hnil)),
          fun h => absurd rfl h, fun h => absurd rfl h, fun _ _ h => absurd rfl h⟩
      · have hgrown : e.held.revision = d.revision + 1 := hrevision
        refine ⟨by omega, iff_of_false (by omega) ?_, fun _ => hgrown, fun _ => by omega, ?_⟩
        · rintro (⟨err, ⟨⟩⟩ | hnoops)
          exact hsome (EditSet.withoutNoops_eq_nil_iff.2 hnoops)
        · rintro edit rfl -
          refine Document.text_ne_of_apply_single happly fun hslice => ?_
          exact hsome (EditSet.withoutNoops_eq_nil_iff.2 (by simpa using hslice))

/-- Two edits that touch, the first of which puts back what is there. -/
theorem dropping_noops_is_invisible_beside_change :
    let d := Document.ofText "é = 1\n".toList
    let es : EditSet := [⟨⟨0, 5⟩, "é = ".toList⟩, ⟨⟨5, 6⟩, "12".toList⟩]
    es.validate d.buffer = .ok () ∧
      ∃ e, d.apply es = .ok (1, e) ∧ es.apply d.buffer = .ok e.buffer ∧
        e.text = "é = 12\n".toList ∧ e.revision = 1 := by
  intro d es
  have hord : es.InOrder := by
    show List.Pairwise (fun d e => d.span.start < e.span.start ∧ d.span.stop ≤ e.span.start) es
    decide
  have hvalid : es.validate d.buffer = .ok () :=
    EditSet.validate_eq_ok_iff.2 ⟨by decide +kernel, hord.disjoint⟩
  have hcount : (es.countP fun edit =>
      decide (d.buffer.slice? edit.span.start edit.span.stop ≠ some edit.text)) = 1 := by
    decide +kernel
  have hsome : ¬ ∀ edit ∈ es, d.buffer.slice? edit.span.start edit.span.stop = some edit.text := by
    decide +kernel
  have hwoven : EditSet.weave d.buffer.text 0 es = "é = 12\n".toList := by decide +kernel
  obtain ⟨hmade, -, -, result, after, -, hok, -, -, hsame, hgrown, -, -⟩ :=
    dropping_noops_is_invisible d es
  obtain ⟨e, happly, hbuffer⟩ := hmade hvalid
  rw [hcount] at happly
  obtain ⟨rfl, rfl⟩ := hok 1 e happly
  refine ⟨hvalid, e, happly, hbuffer, ?_, hgrown fun hrevision => ?_⟩
  · rw [Document.text, (EditSet.eq_of_apply hbuffer).2, Buffer.withText,
      EditSet.replaceAll_eq_weave hvalid (.refl es) hord, hwoven]
  · rcases hsame.1 hrevision with ⟨err, ⟨⟩⟩ | hnoops
    exact hsome hnoops

end Offside
