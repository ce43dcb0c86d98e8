import Offside.Proofs.Lexical.Read

/-!
# What holds of a scanner on its way

`Reached before s` collects what is true of every scanner `s` that has read a text from its
beginning, where `before` is that text read backwards: an open string has a quote of one of the two
kinds and began earlier, characters are skipped only in a string, and every open bracket is the
offset of an opening bracket in the text.

* `Reached.step`, `Reached.read`: the invariant is kept by a step and by a reading;
* `zone_of_newline`: no comment is open after a line feed.
-/

namespace Offside.Lexical

open Text (size)

/-- The characters that open and close strings. -/
def IsQuote (c : Char) : Prop := c = '\'' ∨ c = '"'

instance (c : Char) : Decidable (IsQuote c) := inferInstanceAs (Decidable (_ ∨ _))

/-- The opening brackets. -/
def IsOpening (c : Char) : Prop := c = '(' ∨ c = '[' ∨ c = '{'

instance (c : Char) : Decidable (IsOpening c) := inferInstanceAs (Decidable (_ ∨ _))

/-- Whether an opening bracket stands at byte `p` of a text that is read backwards. -/
def OpensAt (before : Text) (p : Nat) : Prop :=
  ∃ c u, c :: u <:+ before ∧ size u = p ∧ IsOpening c

theorem OpensAt.cons {before : Text} {p : Nat} (h : OpensAt before p) (c : Char) :
    OpensAt (c :: before) p := by
  obtain ⟨d, u, hu, hp, hd⟩ := h
  exact ⟨d, u, hu.trans (List.suffix_cons c before), hp, hd⟩

/-- A bracket stands before the end of what has been read. -/
theorem OpensAt.lt {before : Text} {p : Nat} (h : OpensAt before p) : p < size before := by
  obtain ⟨d, u, ⟨v, rfl⟩, rfl, -⟩ := h
  have := d.utf8Size_pos
  simp
  omega

/-- A string starts at its first quote or a little before it. -/
theorem stringStart_le (before : Text) (quote : Nat) : stringStart before quote ≤ quote := by
  unfold stringStart
  dsimp only
  split <;> omega

/-- What holds of a scanner that has read `before`, given backwards, from the beginning. -/
structure Reached (before : Text) (s : Scanner) : Prop where
  offset_eq : s.offset = size before
  quote : ∀ o, s.state.zone = .string o → IsQuote o.quote
  start_lt : ∀ o, s.state.zone = .string o → o.start < s.offset
  skip : 0 < s.skip → ∃ o, s.state.zone = .string o
  opens : ∀ p ∈ s.state.parens, OpensAt before p

namespace Reached

variable {before after : Text} {s : Scanner} {c : Char}

/-- Outside strings only the offset and the brackets count. -/
theorem of_not_string (ho : s.offset = size before) (hz : ∀ o, s.state.zone ≠ .string o)
    (hs : s.skip = 0) (hp : ∀ p ∈ s.state.parens, OpensAt before p) : Reached before s where
  offset_eq := ho
  quote := fun o h => absurd h (hz o)
  start_lt := fun o h => absurd h (hz o)
  skip := fun h => absurd hs (Nat.ne_of_gt h)
  opens := hp

theorem init : Reached [] {} := of_not_string rfl (by simp) rfl (by simp)

theorem moved (h : Reached before s) (c : Char) : Reached (c :: before) (s.moved c) where
  offset_eq := by rw [Scanner.moved_offset, h.offset_eq, Text.size_cons, Nat.add_comm]
  quote := h.quote
  start_lt := fun o ho => by
    have := h.start_lt o ho
    rw [Scanner.moved_offset]
    omega
  skip := h.skip
  opens := fun p hp => (h.opens p hp).cons c

theorem enter_code (h : Reached before s) (hs : s.skip = 0) : Reached before (s.enter .code) :=
  of_not_string h.offset_eq (by simp) hs h.opens

theorem stepToken (h : Reached before s) : Reached before s.stepToken := by
  unfold Scanner.stepToken
  split
  · exact of_not_string h.offset_eq (by simp) rfl h.opens
  · exact ⟨h.offset_eq, h.quote, h.start_lt, fun hk => h.skip (by dsimp only at hk; omega), h.opens⟩

theorem stepString {o : OpenString} (h : Reached before s) (hs : s.skip = 0)
    (hz : s.state.zone = .string o) (c : Char) (after : Text) :
    Reached before (s.stepString o c after) := by
  unfold Scanner.stepString
  split
  · exact ⟨h.offset_eq, h.quote, h.start_lt, fun _ => ⟨o, hz⟩, h.opens⟩
  split
  · exact h.enter_code hs
  split
  · split
    · exact h.enter_code hs
    · split
      · exact ⟨h.offset_eq, h.quote, h.start_lt, fun _ => ⟨o, hz⟩, h.opens⟩
      · exact h
  · exact h

theorem stepCode (h : Reached (c :: before) s) (hs : s.skip = 0) (after : Text) :
    Reached (c :: before) (s.stepCode (size before) before c after) := by
  have hlt : size before < s.offset := by
    have := c.utf8Size_pos
    rw [h.offset_eq, Text.size_cons]
    omega
  have hstart : stringStart before (size before) < s.offset :=
    Nat.lt_of_le_of_lt (stringStart_le _ _) hlt
  unfold Scanner.stepCode
  split
  · exact of_not_string h.offset_eq (by simp) hs h.opens
  split
  · next hq =>
    split
    all_goals
      refine ⟨h.offset_eq, ?_, ?_, fun _ => ⟨_, rfl⟩, h.opens⟩
      · rintro o ⟨⟩
        exact hq
      · rintro o ⟨⟩
        exact hstart
  split
  · next ho =>
    refine ⟨h.offset_eq, h.quote, h.start_lt, h.skip, ?_⟩
    intro p hp
    rcases List.mem_cons.1 hp with rfl | hp
    · exact ⟨c, before, List.suffix_rfl, rfl, ho⟩
    · exact h.opens p hp
  split
  · exact ⟨h.offset_eq, h.quote, h.start_lt, h.skip,
      fun p hp => h.opens p (List.mem_of_mem_tail hp)⟩
  · exact h

/-- A step keeps the invariant. -/
theorem step (h : Reached before s) (c : Char) (after : Text) :
    Reached (c :: before) (s.step before c after) := by
  rcases Nat.eq_zero_or_pos s.skip with hs | hs
  · cases hz : s.state.zone with
    | code =>
      rw [Scanner.step_of_code hs hz, h.offset_eq]
      exact (h.moved c).stepCode hs after
    | string o =>
      rw [Scanner.step_of_string hs hz]
      exact (h.moved c).stepString hs hz c after
    | comment start =>
      rw [Scanner.step_of_comment hs hz]
      split
      · exact (h.moved c).enter_code hs
      · exact h.moved c
  · rw [Scanner.step_of_skip hs]
    exact (h.moved c).stepToken

/-- Reading a stretch keeps the invariant. -/
theorem read {p : Text} (h : Reached before s) (after : Text) :
    Reached (p.reverse ++ before) (s.read before p after) := by
  induction p generalizing before s with
  | nil => exact h
  | cons c cs ih =>
    rw [List.reverse_cons, List.append_assoc]
    exact ih (h.step c (cs ++ after))

end Reached

/-- No comment is open after a line feed. -/
theorem zone_of_newline {before after : Text} {s : Scanner} (h : Reached before s) (n : Nat) :
    (s.step before '\n' after).state.zone ≠ .comment n := by
  rcases Nat.eq_zero_or_pos s.skip with hs | hs
  · cases hz : s.state.zone with
    | code => simp [Scanner.step_of_code hs hz, Scanner.stepCode, hz]
    | string o =>
      rw [Scanner.step_of_string hs hz]
      unfold Scanner.stepString
      repeat' split
      all_goals simp [hz]
    | comment start => simp [Scanner.step_of_comment hs hz]
  · obtain ⟨o, ho⟩ := h.skip hs
    rw [Scanner.step_of_skip hs]
    unfold Scanner.stepToken
    split <;> simp [ho]

end Offside.Lexical
