import Offside.Proofs.Lexical.Entries
import Offside.Proofs.Lexical.Grammar

/-!
# Where the scanner's findings stand

What the scanner reports by an offset stands in the text at that offset: code characters follow each
other from the start of their range, and a string starts at a boundary, with its letters or its first
quote.

* `Text.StandsAt`: a text that stands in another one at an offset;
* `Scanner.standsAt_of_mem_codeChars`, `Scanner.pairwise_codeChars`: code characters;
* `Scanner.string_of_step`, `Scanner.isBoundary_stringStart`: the start of an open string.
-/

namespace Offside

open Lexical

namespace Text

/-- Whether `q` stands at offset `start` of a text that itself begins at offset `base`. -/
def StandsAt (t : Text) (base start : Nat) (q : Text) : Prop :=
  ∃ u x, t = u ++ (q ++ x) ∧ start = base + size u

namespace StandsAt

variable {t p q : Text} {base start : Nat}

theorem le (h : StandsAt t base start q) : base ≤ start := by
  obtain ⟨u, x, -, rfl⟩ := h
  exact Nat.le_add_right _ _

theorem head (q x : Text) (base : Nat) : StandsAt (q ++ x) base base q := ⟨[], x, rfl, rfl⟩

theorem cons {c : Char} (h : StandsAt t (base + c.utf8Size) start q) :
    StandsAt (c :: t) base start q := by
  obtain ⟨u, x, rfl, rfl⟩ := h
  exact ⟨c :: u, x, rfl, by rw [size_cons, Nat.add_assoc]⟩

/-- What stands at the end of another text stands behind it. -/
theorem append (hp : StandsAt t base start p) (hq : StandsAt t base (start + size p) q) :
    StandsAt t base start (p ++ q) := by
  obtain ⟨u, x, rfl, rfl⟩ := hp
  obtain ⟨v, y, ht, hv⟩ := hq
  have hsize : size v = size (u ++ p) := by
    rw [size_append]
    omega
  have hcut : u ++ p = v := by
    have htake := takeBytes_size v (q ++ y)
    rwa [← ht, hsize, ← List.append_assoc, takeBytes_size] at htake
  refine ⟨u, y, ?_, rfl⟩
  rw [ht, ← hcut, List.append_assoc, List.append_assoc]

theorem of_append (h : StandsAt t base start (p ++ q)) : StandsAt t base start p := by
  obtain ⟨u, x, rfl, hstart⟩ := h
  exact ⟨u, q ++ x, by rw [List.append_assoc], hstart⟩

/-- A text ends at a boundary of the one that it stands in. -/
theorem exists_append (h : StandsAt t base start q) :
    ∃ u x, t = u ++ x ∧ start + size q = base + size u := by
  obtain ⟨u, x, rfl, rfl⟩ := h
  exact ⟨u ++ q, x, by rw [List.append_assoc], by rw [size_append, Nat.add_assoc]⟩

end StandsAt

end Text

namespace Lexical

open Text (size)

/-! ### Code characters -/

namespace Scanner

variable {stop base : Nat} {before after : Text} {s : Scanner}

/-- A code character stands at its offset. -/
theorem standsAt_of_mem_codeChars {k : CodeChar} (h : k ∈ s.codeChars stop base before after) :
    after.StandsAt s.offset k.offset [k.char] := by
  induction after generalizing before s with
  | nil => cases h
  | cons c cs ih =>
    unfold codeChars at h
    split at h
    · dsimp only at h
      have hrest : k ∈ (s.step before c cs).codeChars stop base (c :: before) cs →
          Text.StandsAt (c :: cs) s.offset k.offset [k.char] := by
        intro hk
        have hin := ih hk
        rw [step_offset] at hin
        exact hin.cons
      split at h
      · rcases List.mem_cons.1 h with rfl | h
        · exact Text.StandsAt.head [c] cs s.offset
        · exact hrest h
      · exact hrest h
    · cases h

/-- Each code character ends before the next one stands. -/
theorem pairwise_codeChars (stop base : Nat) (before after : Text) (s : Scanner) :
    (s.codeChars stop base before after).Pairwise fun k l =>
      k.offset + k.char.utf8Size ≤ l.offset := by
  induction after generalizing before s with
  | nil => exact List.Pairwise.nil
  | cons c cs ih =>
    unfold codeChars
    split
    · dsimp only
      split
      · refine List.pairwise_cons.2 ⟨fun l hl => ?_, ih _ _⟩
        have hle := (standsAt_of_mem_codeChars hl).le
        rwa [step_offset] at hle
      · exact ih _ _
    · exact List.Pairwise.nil

end Scanner

/-! ### Starts of strings -/

/-- A string starts at the end of something that stands before it. -/
theorem exists_suffix_stringStart (before : Text) :
    ∃ u, u <:+ before ∧ size u = stringStart before (size before) := by
  rw [stringStart]
  split
  · refine ⟨before.dropWhile isMarkChar, List.dropWhile_suffix _, ?_⟩
    have hsize : size (before.takeWhile isMarkChar) = (before.takeWhile isMarkChar).length :=
      size_of_isMarkChar fun c hc => List.mem_takeWhile_imp hc
    have hjoin := congrArg size (List.takeWhile_append_dropWhile (p := isMarkChar) (l := before))
    rw [Text.size_append] at hjoin
    omega
  · exact ⟨before, List.suffix_rfl, rfl⟩

namespace Scanner

variable {before after : Text} {s : Scanner} {c : Char} {o : OpenString}

/-- A string that is open after a step was open before it or starts there. -/
theorem string_of_step (h : (s.step before c after).state.zone = .string o) :
    s.state.zone = .string o ∨ o.start = stringStart before s.offset := by
  rcases Nat.eq_zero_or_pos s.skip with hs | hs
  · cases hz : s.state.zone with
    | code =>
      rw [step_of_code hs hz] at h
      unfold stepCode at h
      split at h
      · cases h
      split at h
      · split at h <;> · cases h; exact .inr rfl
      split at h
      · simp [hz] at h
      split at h <;> simp [hz] at h
    | string o' =>
      rw [step_of_string hs hz] at h
      unfold stepString at h
      repeat' split at h
      all_goals simp_all
    | comment start =>
      rw [step_of_comment hs hz] at h
      split at h <;> simp [hz] at h
  · rw [step_of_skip hs] at h
    unfold stepToken at h
    split at h
    · cases h
    · exact .inl h

/-- An open string starts at the end of something that has been read. -/
theorem exists_stringStart_read {p : Text} (hs : s.offset = size before)
    (hb : ∀ o, s.state.zone = .string o → ∃ u, u <:+ before ∧ size u = o.start)
    (h : (s.read before p after).state.zone = .string o) :
    ∃ u, u <:+ p.reverse ++ before ∧ size u = o.start := by
  induction p generalizing before s with
  | nil => exact hb o h
  | cons c cs ih =>
    rw [read_cons] at h
    rw [List.reverse_cons, List.append_assoc]
    refine ih ?_ ?_ h
    · rw [step_offset, hs, List.singleton_append, Text.size_cons, Nat.add_comm]
    · intro o' ho'
      obtain ⟨u, hu, hsize⟩ : ∃ u, u <:+ before ∧ size u = o'.start := by
        rcases string_of_step ho' with hz | hstart
        · exact hb o' hz
        · rw [hstart, hs]
          exact exists_suffix_stringStart before
      exact ⟨u, hu.trans (List.suffix_cons c before), hsize⟩

/-- The string that is open at an offset starts at a boundary. -/
theorem isBoundary_stringStart {t : Text} {n : Nat}
    (h : (ofOffset t n).state.zone = .string o) : t.IsBoundary o.start := by
  rw [ofOffset_eq_read] at h
  obtain ⟨u, ⟨v, hv⟩, hsize⟩ := exists_stringStart_read rfl (by simp) h
  rw [List.append_nil] at hv
  have htake : t.takeBytes n = u.reverse ++ v.reverse := by
    have hrev := congrArg List.reverse hv
    rwa [List.reverse_append, List.reverse_reverse, eq_comm] at hrev
  refine Text.isBoundary_iff.2 ⟨u.reverse, v.reverse ++ t.dropBytes n, ?_, ?_⟩
  · rw [← List.append_assoc, ← htake, Text.takeBytes_append_dropBytes]
  · rw [Text.size_reverse, hsize]

end Scanner

end Lexical

end Offside
