import Offside.Lexical.Cache
import Offside.Proofs.Lexical.Lookahead
import Offside.Proofs.Text.Rows
import Mathlib.Data.List.TakeWhile

/-!
# Sound caches

A cache is sound for a text if every scanner that it holds is the one that scanning from the
beginning would give, and its checkpoints are strictly sorted.

* `Scanner.IsOf`: a scanner that stands where scanning from the beginning leads;
* `Cache.Sound`: the invariant of a cache;
* `Cache.Sound.scannerAt`: a sound cache answers as a scan from the beginning, and stays sound;
* `Cache.Sound.edited`: after an edit, what is left of a sound cache is sound for the new text.
-/

namespace Offside.Lexical

open Text (size IsBoundary)

namespace Scanner

/-- Whether a scanner is the one that scanning a text from the beginning gives at its offset. -/
def IsOf (t : Text) (s : Scanner) : Prop := IsBoundary t s.offset ∧ ofOffset t s.offset = s

theorem isOf_ofOffset (t : Text) (n : Nat) : (ofOffset t n).IsOf t := by
  have hb := Text.isBoundary_floorBoundary t n
  refine ⟨by rwa [ofOffset_offset], ?_⟩
  rw [ofOffset_offset, ofOffset, ofOffset, hb]

theorem isOf_init (t : Text) : ({} : Scanner).IsOf t :=
  ⟨Text.isBoundary_zero t, ofOffset_size [] t⟩

namespace IsOf

variable {t : Text} {s : Scanner} {n : Nat}

/-- Going on from such a scanner is the same as scanning from the beginning. -/
theorem advanceTo_eq (h : s.IsOf t) (hn : IsBoundary t n) (hs : s.offset ≤ n) :
    s.advanceTo t n = ofOffset t n := by
  obtain ⟨p, q, x, rfl, hp, rfl⟩ := Text.exists_append_of_isBoundary h.1 hn hs
  have hread : s = ({} : Scanner).read [] p (q ++ x) := by
    rw [← ofOffset_size, ← hp, h.2]
  rw [hread, read_advanceTo, ← List.append_assoc, ← Text.size_append, ofOffset_size]

theorem advanceTo_of_le (h : n ≤ s.offset) : s.advanceTo t n = s := by
  unfold advanceTo
  cases t.dropBytes s.offset with
  | nil => rfl
  | cons c cs => rw [advance, if_neg (by omega)]

theorem advanceTo (h : s.IsOf t) (hn : IsBoundary t n) : (s.advanceTo t n).IsOf t := by
  rcases Nat.le_total s.offset n with hs | hs
  · rw [h.advanceTo_eq hn hs]
    exact isOf_ofOffset t n
  · rwa [advanceTo_of_le hs]

theorem advanceTo_offset_le {m : Nat} (h : s.IsOf t) (hn : IsBoundary t n) (hs : s.offset ≤ m)
    (hm : n ≤ m) : (s.advanceTo t n).offset ≤ m := by
  rcases Nat.le_total s.offset n with hle | hle
  · rw [h.advanceTo_eq hn hle, ofOffset_offset]
    exact Nat.le_trans (Text.floorBoundary_le t n) hm
  · rwa [advanceTo_of_le hle]

/-- A scanner far enough before an edit is right for the new text too. -/
theorem edited {p x : Text} (h : s.IsOf (p ++ x)) (hs : s.offset + lookahead ≤ size p)
    (y : Text) : s.IsOf (p ++ y) := by
  have hb := h.1.of_append (by omega)
  obtain ⟨u, q, rfl, hu⟩ := Text.isBoundary_iff.1 hb
  have hq : 2 ≤ size q := by
    rw [Text.size_append] at hs
    simp only [lookahead] at hs
    omega
  have hsame := h.2
  rw [List.append_assoc, hu, ofOffset_size,
    read_congr Reached.init (SameLook.of_size hq x y)] at hsame
  refine ⟨hb.append y, ?_⟩
  rw [List.append_assoc, hu, ofOffset_size, hsame]

end IsOf

end Scanner

namespace Cache

/-- The invariant of a cache: its scanners are right, and its checkpoints strictly sorted. -/
structure Sound (t : Text) (c : Cache) : Prop where
  checkpoints : ∀ s ∈ c.checkpoints, s.IsOf t
  last : ∀ s, c.last = some s → s.IsOf t
  sorted : c.checkpoints.Pairwise (·.offset < ·.offset)

theorem mem_insertSorted {s r : Scanner} {l : List Scanner} (h : r ∈ insertSorted s l) :
    r = s ∨ r ∈ l := by
  induction l with
  | nil => simpa [insertSorted] using h
  | cons q l ih =>
    unfold insertSorted at h
    split at h
    · simpa using h
    · split at h
      · exact .inr h
      · rcases List.mem_cons.1 h with rfl | h
        · exact .inr List.mem_cons_self
        · exact (ih h).imp_right (List.mem_cons_of_mem q)

/-- Putting a scanner at its place keeps a list strictly sorted. -/
theorem pairwise_insertSorted (s : Scanner) {l : List Scanner}
    (h : l.Pairwise (·.offset < ·.offset)) : (insertSorted s l).Pairwise (·.offset < ·.offset) := by
  induction l with
  | nil => simp [insertSorted]
  | cons q l ih =>
    obtain ⟨hq, hl⟩ := List.pairwise_cons.1 h
    unfold insertSorted
    split
    · next hs =>
      refine List.pairwise_cons.2 ⟨fun r hr => ?_, h⟩
      rcases List.mem_cons.1 hr with rfl | hr
      · exact hs
      · exact Nat.lt_trans hs (hq r hr)
    · split
      · exact h
      · refine List.pairwise_cons.2 ⟨fun r hr => ?_, ih hl⟩
        rcases mem_insertSorted hr with rfl | hr
        · omega
        · exact hq r hr

namespace Sound

variable {t : Text} {c : Cache}

theorem empty (t : Text) : Sound t {} := ⟨by simp, by simp, List.Pairwise.nil⟩

theorem record {s : Scanner} (h : c.Sound t) (hs : s.IsOf t) : (c.record s).Sound t := by
  unfold Cache.record
  split
  · refine ⟨fun r hr => ?_, h.last, pairwise_insertSorted s h.sorted⟩
    rcases mem_insertSorted hr with rfl | hr
    · exact hs
    · exact h.checkpoints r hr
  · exact h

/-- The scanner to go on from is right, and not past the target. -/
theorem resumePoint (h : c.Sound t) (target : Nat) :
    (c.resumePoint target).IsOf t ∧ (c.resumePoint target).offset ≤ target := by
  have hcp : ∀ s, c.checkpointBefore? target = some s → s.IsOf t ∧ s.offset ≤ target := by
    intro s hs
    have hm := List.mem_of_getLast? hs
    exact ⟨h.checkpoints s (List.takeWhile_subset _ hm), by
      simpa using List.mem_takeWhile_imp hm⟩
  have hlast : ∀ s, c.last.filter (·.offset ≤ target) = some s →
      s.IsOf t ∧ s.offset ≤ target := by
    intro s hs
    obtain ⟨hs, hle⟩ := Option.filter_eq_some_iff.1 hs
    exact ⟨h.last s hs, by simpa using hle⟩
  unfold Cache.resumePoint
  split
  · next s r hs hr =>
    split
    · exact hlast r hr
    · exact hcp s hs
  · next s hs _ => exact hcp s hs
  · next r _ hr => exact hlast r hr
  · exact ⟨Scanner.isOf_init t, Nat.zero_le target⟩

/-- What a scan keeps from one checkpoint to the next. -/
theorem pass {b : Buffer} {walk : Scanner × Cache} {offset target : Nat}
    (hs : walk.1.IsOf b.text) (hle : walk.1.offset ≤ target) (hc : walk.2.Sound b.text)
    (ho : IsBoundary b.text offset) (hot : offset ≤ target) :
    (Cache.pass b.text walk offset).1.IsOf b.text ∧
      (Cache.pass b.text walk offset).1.offset ≤ target ∧
      (Cache.pass b.text walk offset).2.Sound b.text :=
  ⟨hs.advanceTo ho, hs.advanceTo_offset_le ho hle hot, hc.record (hs.advanceTo ho)⟩

theorem foldl_pass {b : Buffer} {target : Nat} (offsets : List Nat)
    (ho : ∀ o ∈ offsets, IsBoundary b.text o ∧ o ≤ target) (walk : Scanner × Cache)
    (hs : walk.1.IsOf b.text) (hle : walk.1.offset ≤ target) (hc : walk.2.Sound b.text) :
    (offsets.foldl (Cache.pass b.text) walk).1.IsOf b.text ∧
      (offsets.foldl (Cache.pass b.text) walk).1.offset ≤ target ∧
      (offsets.foldl (Cache.pass b.text) walk).2.Sound b.text := by
  induction offsets generalizing walk with
  | nil => exact ⟨hs, hle, hc⟩
  | cons o offsets ih =>
    obtain ⟨ho1, ho2⟩ := ho o List.mem_cons_self
    obtain ⟨h1, h2, h3⟩ := pass hs hle hc ho1 ho2
    exact ih (fun q hq => ho q (List.mem_cons_of_mem o hq)) _ h1 h2 h3

theorem isBoundary_of_mem_checkpointOffsets {b : Buffer} {o : Nat}
    (h : o ∈ checkpointOffsets b) : IsBoundary b.text o := by
  obtain ⟨k, -, rfl⟩ := List.mem_map.1 h
  exact b.isBoundary_lineStart _

/-- The checkpoints that a scan passes are boundaries, and not past its target. -/
theorem isBoundary_of_mem_ahead (b : Buffer) (offset target : Nat) :
    ∀ o ∈ (checkpointOffsets b).filter fun o => decide (offset < o) && decide (o ≤ target),
      IsBoundary b.text o ∧ o ≤ target := by
  intro o h
  obtain ⟨ho, hb⟩ := List.mem_filter.1 h
  simp only [Bool.and_eq_true, decide_eq_true_eq] at hb
  exact ⟨isBoundary_of_mem_checkpointOffsets ho, hb.2⟩

/-- A sound cache answers as a scan from the beginning does, and stays sound. -/
theorem scannerAt {b : Buffer} (h : c.Sound b.text) (offset : Nat) :
    (c.scannerAt b offset).1 = Scanner.ofOffset b.text offset ∧
      (c.scannerAt b offset).2.Sound b.text := by
  have htarget : IsBoundary b.text (b.floorBoundary offset) :=
    Text.isBoundary_floorBoundary b.text offset
  obtain ⟨hr, hle⟩ := h.resumePoint (b.floorBoundary offset)
  obtain ⟨h1, h2, h3⟩ := foldl_pass _ (isBoundary_of_mem_ahead b _ _)
    (c.resumePoint (b.floorBoundary offset), c) hr hle h
  have hanswer : (c.scannerAt b offset).1 = Scanner.ofOffset b.text offset := by
    refine (h1.advanceTo_eq htarget h2).trans ?_
    rw [Scanner.ofOffset, Scanner.ofOffset, htarget, Buffer.floorBoundary]
  refine ⟨hanswer, h3.checkpoints, ?_, h3.sorted⟩
  intro s hs
  have hlast : s = (c.scannerAt b offset).1 := (Option.some.inj hs).symm
  rw [hlast, hanswer]
  exact Scanner.isOf_ofOffset b.text offset

/-- Forgetting scanners keeps a cache sound. -/
theorem invalidateFrom (h : c.Sound t) (offset : Nat) : (c.invalidateFrom offset).Sound t := by
  refine ⟨fun s hs => h.checkpoints s ((List.mem_filter.1 hs).1), fun s hs => ?_,
    h.sorted.sublist List.filter_sublist⟩
  exact h.last s (Option.filter_eq_some_iff.1 hs).1

/-- After an edit, what is left of a sound cache is sound for the new text. -/
theorem edited {p x : Text} (h : c.Sound (p ++ x)) (y : Text) :
    (c.invalidateFrom (size p)).Sound (p ++ y) := by
  have hkept := h.invalidateFrom (size p)
  refine ⟨fun s hs => ?_, fun s hs => ?_, hkept.sorted⟩
  · have hfar := (List.mem_filter.1 hs).2
    exact (hkept.checkpoints s hs).edited (by simpa using hfar) y
  · have hfar := (Option.filter_eq_some_iff.1 hs).2
    exact (hkept.last s hs).edited (by simpa using hfar) y

end Sound

end Cache

end Offside.Lexical
