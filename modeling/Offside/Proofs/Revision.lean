import Offside.Proofs.Adjustment

/-!
# Revisions

The revision of a document grows with every edit that changes something, and nothing else moves it.
So where the revision is the same nothing has been edited, and the changes that an operation counts
are none exactly if it leaves the document alone.

* `Document.Counts`: what the changes that are counted on the way to a document say about it;
* `Document.counts_apply`, `counts_setIndentation`, `counts_reindentLines`: edits, one line, and lines
  one after the other;
* `Document.counts_adjust`: all operations that change indentation;
* `Document.Later`, `Later.text_eq`, `Later.revision_lt`: whatever is done to a document.
-/

namespace Offside

/-- A computation in steps succeeds if its first step and then the rest do. -/
theorem exists_of_bind_eq_ok {ε α β : Type} {x : Except ε α} {f : α → Except ε β} {b : β}
    (h : (x >>= f) = .ok b) : ∃ a, x = .ok a ∧ f a = .ok b := by
  cases x with
  | error err => cases h
  | ok a => exact ⟨a, rfl, h⟩

namespace Document

variable {d e f : Document} {line m n : Nat}

/-- A document that `n` counted changes have led to: with none it is the same, and with some the
revision has grown. -/
structure Counts (d : Document) (n : Nat) (e : Document) : Prop where
  settings : e.settings = d.settings
  same : n = 0 → e = d
  later : 0 < n → d.revision < e.revision

namespace Counts

theorem refl (d : Document) : d.Counts 0 d := ⟨rfl, fun _ => rfl, fun h => absurd h (by omega)⟩

theorem revision_le (h : d.Counts n e) : d.revision ≤ e.revision := by
  by_cases hn : n = 0
  · rw [h.same hn]
  · exact Nat.le_of_lt (h.later (by omega))

/-- The revision tells whether any change has been counted. -/
theorem revision_eq_iff (h : d.Counts n e) : e.revision = d.revision ↔ n = 0 := by
  constructor
  · intro hrevision
    by_contra hn
    have := h.later (by omega)
    omega
  · intro hn
    rw [h.same hn]

theorem trans (h : d.Counts m e) (h' : e.Counts n f) : d.Counts (m + n) f where
  settings := h'.settings.trans h.settings
  same hn := by
    have hf := h'.same (by omega)
    rw [hf, h.same (by omega)]
  later hn := by
    have hle := h.revision_le
    have hle' := h'.revision_le
    by_cases hm : 0 < m
    · have := h.later hm
      omega
    · have := h'.later (by omega)
      omega

end Counts

/-! ### Edits -/

theorem counts_apply {es : EditSet} (h : d.apply es = .ok (n, e)) : d.Counts n e := by
  rcases apply_cases h with ⟨-, rfl, rfl⟩ | ⟨first, hfirst, -, rfl, hsettings, -, hrevision⟩
  · exact .refl e
  · have hne : es.withoutNoops d.buffer ≠ [] := by
      intro hnil
      rw [hnil] at hfirst
      cases hfirst
    have hpos := List.length_pos_iff.2 hne
    exact ⟨hsettings, fun hzero => by omega, fun _ => by omega⟩

/-- Edits none of which changes anything leave the document as it is. -/
theorem apply_of_noops {es : EditSet} (h : ∀ edit ∈ es, edit.isNoop d.buffer = true) :
    d.apply es = .ok (0, d) := by
  have hnone : es.withoutNoops d.buffer = [] := by
    rw [EditSet.withoutNoops, List.filter_eq_nil_iff]
    intro edit hedit
    simp [h edit hedit]
  unfold apply
  simp only [hnone, EditSet.firstOffset?, List.map_nil, List.min?_nil]
  rfl

theorem counts_setIndentation {column : Nat} {changed : Bool}
    (h : d.setIndentation line column = .ok (changed, e)) : d.Counts changed.toNat e := by
  obtain ⟨-, -, h⟩ := exists_of_bind_eq_ok h
  obtain ⟨⟨n, e'⟩, happly, h⟩ := exists_of_bind_eq_ok h
  cases h
  have hcounts := counts_apply happly
  by_cases hn : n = 0
  · subst hn
    simpa using hcounts
  · have hpos : 0 < n := by omega
    simp only [hpos, decide_true, Bool.toNat_true]
    exact ⟨hcounts.settings, nofun, fun _ => hcounts.later hpos⟩

/-! ### Lines one after the other -/

theorem counts_reindentLine {changed : Bool} (h : d.reindentLine line = .ok (changed, e)) :
    d.Counts changed.toNat e := by
  rw [reindentLine] at h
  split at h
  · cases h
    exact .refl _
  · exact counts_setIndentation h

theorem counts_reindentLines {lines : List Nat} (h : d.reindentLines lines = .ok (n, e)) :
    d.Counts n e := by
  induction lines generalizing d n with
  | nil =>
    cases h
    exact .refl e
  | cons line rest ih =>
    rw [reindentLines] at h
    obtain ⟨⟨changed, e₁⟩, hline, h⟩ := exists_of_bind_eq_ok h
    obtain ⟨⟨k, e₂⟩, hrest, h⟩ := exists_of_bind_eq_ok h
    cases h
    have hcounts := (counts_reindentLine hline).trans (ih hrest)
    cases changed with
    | false => simpa using hcounts
    | true => simpa [Nat.add_comm] using hcounts

/-! ### Operations -/

variable {start stop : Nat} {count : Option Nat}

theorem counts_reindent (h : d.reindent start stop = .ok (n, e)) : d.Counts n e := by
  obtain ⟨-, -, h⟩ := exists_of_bind_eq_ok h
  exact counts_reindentLines h

theorem counts_shiftRight (h : d.shiftRight start stop count = .ok (n, e)) : d.Counts n e := by
  obtain ⟨-, -, h⟩ := exists_of_bind_eq_ok h
  exact counts_apply h

theorem counts_shiftLeft (h : d.shiftLeft start stop count = .ok (n, e)) : d.Counts n e := by
  obtain ⟨-, -, h⟩ := exists_of_bind_eq_ok h
  dsimp only at h
  split at h
  · cases h
  · exact counts_apply h

theorem counts_electricDedent {moved : Bool} (h : d.electricDedent line = .ok (moved, e)) :
    d.Counts moved.toNat e := by
  obtain ⟨-, -, h⟩ := exists_of_bind_eq_ok h
  split at h
  · cases h
    exact .refl _
  · exact counts_setIndentation h

/-- What is returned for a request to indent a line. -/
theorem counts_indentLine {previous : Option IndentCycle} {cycle : IndentCycle}
    (h : d.indentLine line previous = .ok (cycle, e)) :
    cycle = ⟨line, d.nextLevels line previous, e.revision⟩ ∧ ∃ n, d.Counts n e := by
  obtain ⟨-, -, h⟩ := exists_of_bind_eq_ok h
  obtain ⟨⟨changed, e'⟩, hset, h⟩ := exists_of_bind_eq_ok h
  cases h
  exact ⟨rfl, _, counts_setIndentation hset⟩

/-- Every operation that changes indentation counts its changes. -/
theorem counts_adjust {a : Adjustment} (h : d.adjust a = .ok e) : ∃ n, d.Counts n e := by
  have hsecond : ∀ {α : Type} {result : Except EditError (α × Document)},
      (·.2) <$> result = .ok e → ∃ x, result = .ok (x, e) := by
    intro α result hresult
    cases result with
    | error err => cases hresult
    | ok r =>
      cases hresult
      exact ⟨r.1, rfl⟩
  cases a with
  | setIndentation line column =>
    obtain ⟨changed, h⟩ := hsecond h
    exact ⟨_, counts_setIndentation h⟩
  | shiftRight start stop count =>
    obtain ⟨n, h⟩ := hsecond h
    exact ⟨n, counts_shiftRight h⟩
  | shiftLeft start stop count =>
    obtain ⟨n, h⟩ := hsecond h
    exact ⟨n, counts_shiftLeft h⟩
  | reindent start stop =>
    obtain ⟨n, h⟩ := hsecond h
    exact ⟨n, counts_reindent h⟩
  | electricDedent line =>
    obtain ⟨moved, h⟩ := hsecond h
    exact ⟨_, counts_electricDedent h⟩
  | indentLine line previous =>
    obtain ⟨cycle, h⟩ := hsecond h
    exact (counts_indentLine h).2

/-! ### Whatever is done to a document -/

/-- A document after any look-ups, edits, operations and changes of its indent unit.  The flag says
whether it has been edited on the way: whether some edits have been made that change something, or
some operation has changed the text. -/
inductive Later (d : Document) : Bool → Document → Prop
  | refl : Later d false d
  | look {edited : Bool} {e : Document} (offset : Nat) :
      Later d edited e → Later d edited (e.cachedScannerAt offset).2
  | setIndentUnit {edited : Bool} {e f : Document} {unit : Nat} :
      Later d edited e → e.setIndentUnit unit = .ok f → Later d edited f
  | apply {edited : Bool} {e f : Document} {es : EditSet} {n : Nat} :
      Later d edited e → e.apply es = .ok (n, f) → Later d (edited || decide (0 < n)) f
  | adjust {edited : Bool} {e f : Document} {a : Adjustment} :
      Later d edited e → e.adjust a = .ok f → Later d (edited || decide (f.text ≠ e.text)) f

theorem setIndentUnit_keeps {unit : Nat} (h : d.setIndentUnit unit = .ok e) :
    e.text = d.text ∧ e.revision = d.revision := by
  unfold setIndentUnit at h
  split at h
  · cases h
  · cases h
    exact ⟨rfl, rfl⟩

/-- A document that has not been edited holds the same text. -/
theorem Later.text_eq {edited : Bool} (h : Later d edited e) : edited = false → e.text = d.text := by
  induction h with
  | refl => exact fun _ => rfl
  | look offset _ ih => exact ih
  | setIndentUnit _ hunit ih => exact fun hflag => (setIndentUnit_keeps hunit).1.trans (ih hflag)
  | @apply edited e f es n _ happly ih =>
    intro hflag
    obtain ⟨hbefore, hnone⟩ := Bool.or_eq_false_iff.1 hflag
    rw [(counts_apply happly).same (by simpa using hnone), ih hbefore]
  | @adjust edited e f a _ _ ih =>
    intro hflag
    obtain ⟨hbefore, hsame⟩ := Bool.or_eq_false_iff.1 hflag
    have htext : f.text = e.text := by simpa using hsame
    rw [htext, ih hbefore]

theorem Later.revision_le {edited : Bool} (h : Later d edited e) : d.revision ≤ e.revision := by
  induction h with
  | refl => exact Nat.le_refl _
  | look offset _ ih => exact ih
  | setIndentUnit _ hunit ih => rw [(setIndentUnit_keeps hunit).2]; exact ih
  | apply _ happly ih => exact Nat.le_trans ih (counts_apply happly).revision_le
  | adjust _ hadjust ih =>
    obtain ⟨n, hcounts⟩ := counts_adjust hadjust
    exact Nat.le_trans ih hcounts.revision_le

/-- A document that has been edited has a later revision, even if its text has come back. -/
theorem Later.revision_lt {edited : Bool} (h : Later d edited e) :
    edited = true → d.revision < e.revision := by
  induction h with
  | refl => nofun
  | look offset _ ih => exact ih
  | setIndentUnit _ hunit ih => rw [(setIndentUnit_keeps hunit).2]; exact ih
  | apply hbefore happly ih =>
    intro hflag
    have hcounts := counts_apply happly
    rcases Bool.or_eq_true_iff.1 hflag with hearlier | hnow
    · exact Nat.lt_of_lt_of_le (ih hearlier) hcounts.revision_le
    · exact Nat.lt_of_le_of_lt hbefore.revision_le (hcounts.later (by simpa using hnow))
  | adjust hbefore hadjust ih =>
    intro hflag
    obtain ⟨n, hcounts⟩ := counts_adjust hadjust
    rcases Bool.or_eq_true_iff.1 hflag with hearlier | hnow
    · exact Nat.lt_of_lt_of_le (ih hearlier) hcounts.revision_le
    · refine Nat.lt_of_le_of_lt hbefore.revision_le (hcounts.later ?_)
      by_contra hzero
      rw [hcounts.same (by omega)] at hnow
      simp at hnow

end Document

end Offside
