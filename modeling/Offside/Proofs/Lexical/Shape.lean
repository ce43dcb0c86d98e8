import Offside.Proofs.Lexical.Lookahead
import Offside.Proofs.Text.Indentation

/-!
# Scanners up to offsets

The shape of a scanner is what is left of it without offsets: the zone with its quote and fence, the
number of open brackets, and what is still to be skipped.  A step depends on the shape and on the
text ahead only, and indentation characters do not change the shape.

* `Scanner.shape`, `shape_step`, `shape_read`: equal shapes stay equal;
* `Scanner.read_indentation`: reading indentation only moves the scanner;
* `Scanner.skip_read_of_endsLine`: between two lines nothing is left to be skipped.
-/

namespace Offside.Lexical

open Text (size)

/-- A zone without the offset at which it began. -/
def Zone.shape : Zone → Zone
  | .code => .code
  | .string o => .string ⟨o.quote, o.fence, 0⟩
  | .comment _ => .comment 0

/-- A state without offsets. -/
def State.shape (s : State) : State := ⟨s.zone.shape, List.replicate s.depth 0⟩

namespace State

theorem shape_depth (s : State) : s.shape.depth = s.depth := by simp [shape, depth]

theorem shape_isCode (s : State) : s.shape.isCode = s.isCode := by
  cases h : s.zone <;> simp [shape, isCode, Zone.shape, h]

theorem shape_inString (s : State) : s.shape.inString = s.inString := by
  cases h : s.zone <;> simp [shape, inString, string?, Zone.shape, h]

variable {s t : State}

theorem depth_of_shape (h : s.shape = t.shape) : s.depth = t.depth := by
  rw [← shape_depth, h, shape_depth]

theorem isCode_of_shape (h : s.shape = t.shape) : s.isCode = t.isCode := by
  rw [← shape_isCode, h, shape_isCode]

theorem inString_of_shape (h : s.shape = t.shape) : s.inString = t.inString := by
  rw [← shape_inString, h, shape_inString]

end State

namespace Scanner

/-- A scanner without offsets. -/
def shape (s : Scanner) : Scanner := { s with offset := 0, state := s.state.shape }

@[simp] theorem shape_skip (s : Scanner) : s.shape.skip = s.skip := rfl
@[simp] theorem shape_closePending (s : Scanner) : s.shape.closePending = s.closePending := rfl
@[simp] theorem shape_state (s : Scanner) : s.shape.state = s.state.shape := rfl

variable {s t : Scanner} {before before' : Text}

theorem skip_of_shape (h : s.shape = t.shape) : s.skip = t.skip := by
  rw [← shape_skip, h, shape_skip]

theorem state_of_shape (h : s.shape = t.shape) : s.state.shape = t.state.shape := by
  rw [← shape_state, h, shape_state]

theorem isCode_of_shape (h : s.shape = t.shape) : s.isCode = t.isCode := by
  rw [isCode, isCode, atBoundary, atBoundary, skip_of_shape h,
    State.isCode_of_shape (state_of_shape h)]

/-! ### Steps -/

theorem stepToken_of_close (h : s.skip = 1 ∧ s.closePending = true) :
    s.stepToken = { s.enter .code with skip := 0, closePending := false } :=
  if_pos (by simpa using h)

theorem stepToken_of_not_close (h : ¬ (s.skip = 1 ∧ s.closePending = true)) :
    s.stepToken = { s with skip := s.skip - 1 } :=
  if_neg (by simpa using h)

/-- One character less is left to be skipped, or none. -/
theorem skip_step_le (hs : 0 < s.skip) (c : Char) (after : Text) :
    (s.step before c after).skip ≤ s.skip - 1 := by
  rw [step_of_skip hs, stepToken]
  split
  · exact Nat.zero_le _
  · exact Nat.le_refl _

theorem shape_stepToken (s : Scanner) (c : Char) :
    (s.moved c).stepToken.shape = (s.shape.moved c).stepToken.shape := by
  by_cases h : s.skip = 1 ∧ s.closePending = true
  · rw [stepToken_of_close (s := s.moved c) h, stepToken_of_close (s := s.shape.moved c) h]
    simp [shape, State.shape, State.depth, Zone.shape, enter, moved]
  · rw [stepToken_of_not_close (s := s.moved c) h, stepToken_of_not_close (s := s.shape.moved c) h]
    cases hz : s.state.zone <;> simp [shape, State.shape, State.depth, Zone.shape, hz, moved]

theorem shape_stepString (s : Scanner) (o : OpenString) (c : Char) (after : Text)
    (hz : s.state.zone = .string o) :
    ((s.moved c).stepString o c after).shape =
      ((s.shape.moved c).stepString ⟨o.quote, o.fence, 0⟩ c after).shape := by
  unfold stepString
  split
  · simp [shape, State.shape, State.depth, Zone.shape, hz, moved]
  split
  · simp [shape, State.shape, State.depth, Zone.shape, enter, moved]
  split
  · cases o.fence with
    | single => simp [shape, State.shape, State.depth, Zone.shape, enter, moved]
    | triple =>
      dsimp only
      split <;> simp [shape, State.shape, State.depth, Zone.shape, hz, moved]
  · simp [shape, State.shape, State.depth, Zone.shape, hz, moved]

theorem shape_stepCode (s : Scanner) (c : Char) (after : Text) (here : Nat)
    (hz : s.state.zone = .code) :
    ((s.moved c).stepCode here before c after).shape =
      ((s.shape.moved c).stepCode 0 [] c after).shape := by
  unfold stepCode
  split
  · simp [shape, State.shape, State.depth, Zone.shape, enter, moved]
  split
  · split <;> simp [shape, State.shape, State.depth, Zone.shape, enter, moved]
  split
  · simp [shape, State.shape, State.depth, Zone.shape, hz, moved]
  split
  · simp [shape, State.shape, State.depth, Zone.shape, hz, moved]
  · simp [shape, State.shape, State.depth, Zone.shape, hz, moved]

/-- A step up to offsets can be made without them. -/
theorem shape_step_eq (s : Scanner) (before : Text) (c : Char) (after : Text) :
    (s.step before c after).shape = (s.shape.step [] c after).shape := by
  rcases Nat.eq_zero_or_pos s.skip with hs | hs
  · have hs' : s.shape.skip = 0 := hs
    cases hz : s.state.zone with
    | code =>
      have hz' : s.shape.state.zone = .code := by simp [State.shape, hz, Zone.shape]
      rw [step_of_code hs hz, step_of_code hs' hz']
      exact shape_stepCode s c after s.offset hz
    | string o =>
      have hz' : s.shape.state.zone = .string ⟨o.quote, o.fence, 0⟩ := by
        simp [State.shape, hz, Zone.shape]
      rw [step_of_string hs hz, step_of_string hs' hz']
      exact shape_stepString s o c after hz
    | comment n =>
      have hz' : s.shape.state.zone = .comment 0 := by simp [State.shape, hz, Zone.shape]
      rw [step_of_comment hs hz, step_of_comment hs' hz']
      split <;> simp [shape, State.shape, State.depth, Zone.shape, hz, enter, moved]
  · rw [step_of_skip hs, step_of_skip (s := s.shape) hs]
    exact shape_stepToken s c

/-- A step keeps equal shapes equal. -/
theorem shape_step (h : s.shape = t.shape) (c : Char) (after : Text) :
    (s.step before c after).shape = (t.step before' c after).shape := by
  rw [shape_step_eq, h, ← shape_step_eq]

/-- Reading keeps equal shapes equal. -/
theorem shape_read (h : s.shape = t.shape) (p after : Text) :
    (s.read before p after).shape = (t.read before' p after).shape := by
  induction p generalizing s t before before' with
  | nil => exact h
  | cons c cs ih =>
    rw [read_cons, read_cons]
    exact ih (shape_step h c (cs ++ after))

/-! ### Indentation -/

/-- Characters that mean nothing to the scanner, wherever they stand. -/
def IsPlain (c : Char) : Prop :=
  c ≠ '\\' ∧ c ≠ '\n' ∧ c ≠ '#' ∧ ¬ IsQuote c ∧ ¬ IsOpening c ∧ ¬ (c = ')' ∨ c = ']' ∨ c = '}')

instance (c : Char) : Decidable (IsPlain c) := inferInstanceAs (Decidable (_ ∧ _))

theorem step_of_isPlain (h : Reached before s) (hs : s.skip = 0) {c : Char} (hc : IsPlain c)
    (after : Text) : s.step before c after = s.moved c := by
  obtain ⟨h1, h2, h3, h4, h5, h6⟩ := hc
  cases hz : s.state.zone with
  | code =>
    rw [step_of_code hs hz, stepCode, if_neg h3, if_neg (show ¬ (c = '\'' ∨ c = '"') from h4),
      if_neg (show ¬ (c = '(' ∨ c = '[' ∨ c = '{') from h5), if_neg h6]
  | string o =>
    have hquote : c ≠ o.quote := fun e => h4 (e ▸ h.quote o hz)
    rw [step_of_string hs hz, stepString, if_neg h1, if_neg fun e => h2 e.1, if_neg hquote]
  | comment n => rw [step_of_comment hs hz, if_neg h2]

theorem isPlain_of_isIndentChar {c : Char} (hc : isIndentChar c = true) : IsPlain c := by
  simp only [isIndentChar, Bool.or_eq_true, beq_iff_eq] at hc
  rcases hc with (rfl | rfl) | rfl <;> decide

/-- Reading indentation only moves the scanner. -/
theorem read_indentation (h : Reached before s) (hs : s.skip = 0) {i : Text}
    (hi : Text.IsIndentation i) (after : Text) :
    s.read before i after = { s with offset := s.offset + size i } := by
  induction i generalizing before s with
  | nil => rfl
  | cons c cs ih =>
    have hc := hi c List.mem_cons_self
    have hstep := step_of_isPlain h hs (isPlain_of_isIndentChar hc) (cs ++ after)
    have htail := ih (hstep ▸ h.step c (cs ++ after)) (s := s.moved c) hs fun k hk =>
      hi k (List.mem_cons_of_mem c hk)
    rw [read_cons, hstep, htail]
    simp [moved, Nat.add_assoc]

theorem shape_read_indentation (h : Reached before s) (hs : s.skip = 0) {i : Text}
    (hi : Text.IsIndentation i) (after : Text) : (s.read before i after).shape = s.shape := by
  rw [read_indentation h hs hi]
  rfl

/-! ### Between lines -/

theorem head?_of_opensTriple {c : Char} {after : Text} (h : opensTriple c after = true) :
    after.head? = some c := by
  have htake : after.take 2 = [c, c] := by simpa [opensTriple] using h
  cases after with
  | nil => cases htake
  | cons a rest =>
    rw [List.take_succ_cons] at htake
    rw [List.head?_cons, (List.cons_eq_cons.1 htake).1]

theorem escapeLength_le (after : Text) : escapeLength after ≤ 2 := by
  unfold escapeLength
  split <;> omega

theorem head?_of_escapeLength {after : Text} (h : escapeLength after = 2) :
    after.head? = some '\r' := by
  unfold escapeLength at h
  split at h
  · cases h
  · rfl
  · cases h

/-- At most two characters are left to be skipped, and two only before one that is no line feed. -/
def Pending (s : Scanner) (after : Text) : Prop :=
  s.skip ≤ 2 ∧ (s.skip = 2 → after.head? ≠ some '\n')

theorem Pending.of_skip_eq_zero (hs : s.skip = 0) (after : Text) : Pending s after :=
  ⟨by omega, fun h => by omega⟩

/-- Characters are to be skipped after the first quote of a fence, which two more follow, and after
a backslash in a string. -/
theorem skip_step (h : Reached before s) (hs : s.skip = 0) (c : Char) (after : Text) :
    (s.step before c after).skip = 0 ∨
      (IsQuote c ∧ opensTriple c after = true ∧ (s.step before c after).skip = 2) ∨
      (c = '\\' ∧ (∃ o, s.state.zone = .string o) ∧
        (s.step before c after).skip = escapeLength after) := by
  cases hz : s.state.zone with
  | code =>
    rw [step_of_code hs hz]
    unfold stepCode
    split
    · exact .inl hs
    split
    · next hq =>
      split
      · next ht => exact .inr (.inl ⟨hq, ht, rfl⟩)
      · exact .inl hs
    split
    · exact .inl hs
    split
    · exact .inl hs
    · exact .inl hs
  | string o =>
    rw [step_of_string hs hz]
    unfold stepString
    split
    · next hc => exact .inr (.inr ⟨hc, ⟨o, rfl⟩, rfl⟩)
    split
    · exact .inl hs
    split
    · next hq =>
      split
      · exact .inl hs
      · split
        · next ht => exact .inr (.inl ⟨hq ▸ h.quote o hz, ht, rfl⟩)
        · exact .inl hs
    · exact .inl hs
  | comment n =>
    rw [step_of_comment hs hz]
    split <;> exact .inl hs

theorem Pending.step {c : Char} {after : Text} (h : Reached before s)
    (hp : Pending s (c :: after)) :
    Pending (s.step before c after) after := by
  rcases Nat.eq_zero_or_pos s.skip with hs | hs
  · rcases skip_step h hs c after with hzero | ⟨hq, ht, htwo⟩ | ⟨-, -, hescape⟩
    · exact .of_skip_eq_zero hzero after
    · -- of a fence two more quotes follow
      refine ⟨Nat.le_of_eq htwo, fun _ => ?_⟩
      rw [head?_of_opensTriple ht]
      rcases hq with rfl | rfl <;> decide
    · -- two characters are escaped only if the first is a carriage return
      refine ⟨hescape ▸ escapeLength_le after, fun htwo => ?_⟩
      rw [head?_of_escapeLength (hescape ▸ htwo)]
      decide
  · have hle := hp.1
    rw [step_of_skip hs]
    by_cases hc : s.skip = 1 ∧ s.closePending = true
    · rw [stepToken_of_close (s := s.moved c) hc]
      exact .of_skip_eq_zero rfl after
    · rw [stepToken_of_not_close (s := s.moved c) hc]
      refine ⟨?_, fun h2 => ?_⟩
      · show s.skip - 1 ≤ 2
        omega
      · have : s.skip - 1 = 2 := h2
        omega

theorem Pending.read {p after : Text} (h : Reached before s) (hp : Pending s (p ++ after)) :
    Pending (s.read before p after) after := by
  induction p generalizing before s with
  | nil => exact hp
  | cons c cs ih => exact ih (h.step c (cs ++ after)) (Pending.step h hp)

/-- After a line feed nothing is left to be skipped. -/
theorem skip_step_newline {after : Text} (h : Reached before s) (hp : Pending s ('\n' :: after)) :
    (s.step before '\n' after).skip = 0 := by
  rcases Nat.eq_zero_or_pos s.skip with hs | hs
  · cases hz : s.state.zone with
    | code =>
      rw [step_of_code hs hz]
      simpa [stepCode] using hs
    | string o =>
      have hquote : '\n' ≠ o.quote := by rcases h.quote o hz with e | e <;> rw [e] <;> decide
      rw [step_of_string hs hz, stepString, if_neg (by decide)]
      by_cases hfence : o.fence = .single
      · rw [if_pos ⟨rfl, hfence⟩]
        exact hs
      · rw [if_neg fun e => hfence e.2, if_neg hquote]
        exact hs
    | comment n =>
      rw [step_of_comment hs hz, if_pos rfl]
      exact hs
  · -- with two characters to be skipped the next one would be no line feed
    have hone : s.skip = 1 := by
      have hle := hp.1
      by_contra hne
      exact hp.2 (by omega) rfl
    rw [step_of_skip hs]
    by_cases hc : s.skip = 1 ∧ s.closePending = true
    · rw [stepToken_of_close (s := s.moved '\n') hc]
    · rw [stepToken_of_not_close (s := s.moved '\n') hc]
      show s.skip - 1 = 0
      omega

/-- After whole lines nothing is left to be skipped. -/
theorem skip_read_of_endsLine {p : Text} (h : Reached before s) (hs : s.skip = 0)
    (hp : Text.EndsLine p) (after : Text) : (s.read before p after).skip = 0 := by
  rcases hp with rfl | ⟨q, rfl⟩
  · exact hs
  · rw [read_append]
    exact skip_step_newline (h.read ('\n' :: after)) (Pending.read h (.of_skip_eq_zero hs _))

end Scanner

end Offside.Lexical
