import Offside.Lexical.Entry
import Offside.Proofs.Text.Boundary

/-!
# Reading a stretch of text

`Scanner.read` steps a scanner over a given stretch of text.  Advancing to an offset, scanning from
the beginning and entering a line are all such readings.

* `read_append`: a stretch is read part by part;
* `advance_size_add`, `ofOffset_size`: advancing and scanning as readings.
-/

namespace Offside.Text

@[simp] theorem size_reverse (t : Text) : size t.reverse = size t := by
  induction t with
  | nil => rfl
  | cons c cs ih => simp [ih, Nat.add_comm]

theorem size_reverse_append (p t : Text) : size (p.reverse ++ t) = size t + size p := by
  rw [size_append, size_reverse, Nat.add_comm]

end Offside.Text

namespace Offside.Lexical

open Text (size)

namespace Scanner

/-! ### Single steps -/

@[simp] theorem enter_offset (s : Scanner) (z : Zone) : (s.enter z).offset = s.offset := rfl
@[simp] theorem enter_skip (s : Scanner) (z : Zone) : (s.enter z).skip = s.skip := rfl
@[simp] theorem enter_closePending (s : Scanner) (z : Zone) :
    (s.enter z).closePending = s.closePending := rfl
@[simp] theorem enter_zone (s : Scanner) (z : Zone) : (s.enter z).state.zone = z := rfl
@[simp] theorem enter_parens (s : Scanner) (z : Zone) :
    (s.enter z).state.parens = s.state.parens := rfl

/-- The scanner one character further on, otherwise unchanged. -/
def moved (s : Scanner) (c : Char) : Scanner := { s with offset := s.offset + c.utf8Size }

@[simp] theorem moved_offset (s : Scanner) (c : Char) :
    (s.moved c).offset = s.offset + c.utf8Size := rfl
@[simp] theorem moved_state (s : Scanner) (c : Char) : (s.moved c).state = s.state := rfl
@[simp] theorem moved_skip (s : Scanner) (c : Char) : (s.moved c).skip = s.skip := rfl
@[simp] theorem moved_closePending (s : Scanner) (c : Char) :
    (s.moved c).closePending = s.closePending := rfl

variable {s : Scanner} {before after : Text} {c : Char}

theorem step_of_skip (h : 0 < s.skip) : s.step before c after = (s.moved c).stepToken := by
  simp only [step, if_pos h, moved]

theorem step_of_string {o : OpenString} (h : s.skip = 0) (hz : s.state.zone = .string o) :
    s.step before c after = (s.moved c).stepString o c after := by
  simp only [step, h, hz, moved]
  rfl

theorem step_of_comment {start : Nat} (h : s.skip = 0) (hz : s.state.zone = .comment start) :
    s.step before c after = if c = '\n' then (s.moved c).enter .code else s.moved c := by
  simp only [step, h, hz, moved]
  rfl

theorem step_of_code (h : s.skip = 0) (hz : s.state.zone = .code) :
    s.step before c after = (s.moved c).stepCode s.offset before c after := by
  simp only [step, h, hz, moved]
  rfl

@[simp] theorem stepToken_offset (s : Scanner) : s.stepToken.offset = s.offset := by
  unfold stepToken
  split <;> rfl

@[simp] theorem stepString_offset (o : OpenString) (c : Char) (after : Text) (s : Scanner) :
    (s.stepString o c after).offset = s.offset := by
  unfold stepString
  repeat' split
  all_goals rfl

@[simp] theorem stepCode_offset (here : Nat) (before : Text) (c : Char) (after : Text)
    (s : Scanner) : (s.stepCode here before c after).offset = s.offset := by
  unfold stepCode
  repeat' split
  all_goals rfl

/-- A step goes on by one character. -/
@[simp] theorem step_offset (before : Text) (c : Char) (after : Text) (s : Scanner) :
    (s.step before c after).offset = s.offset + c.utf8Size := by
  rcases Nat.eq_zero_or_pos s.skip with h | h
  · cases hz : s.state.zone with
    | code => rw [step_of_code h hz, stepCode_offset, moved_offset]
    | string o => rw [step_of_string h hz, stepString_offset, moved_offset]
    | comment start =>
      rw [step_of_comment h hz]
      split <;> rfl
  · rw [step_of_skip h, stepToken_offset, moved_offset]

/-! ### Stretches -/

/-- The scanner after `stretch`, which stands between `before`, read backwards, and `after`. -/
def read (before : Text) : Text → Text → Scanner → Scanner
  | [], _, s => s
  | c :: cs, after, s => read (c :: before) cs after (s.step before c (cs ++ after))

@[simp] theorem read_nil (before after : Text) (s : Scanner) : s.read before [] after = s := rfl

theorem read_cons (before cs after : Text) (c : Char) (s : Scanner) :
    s.read before (c :: cs) after =
      (s.step before c (cs ++ after)).read (c :: before) cs after := rfl

/-- A stretch is read part by part. -/
theorem read_append (before p q after : Text) (s : Scanner) :
    s.read before (p ++ q) after =
      (s.read before p (q ++ after)).read (p.reverse ++ before) q after := by
  induction p generalizing before s with
  | nil => rfl
  | cons c cs ih => simp [read_cons, ih]

@[simp] theorem read_offset (before p after : Text) (s : Scanner) :
    (s.read before p after).offset = s.offset + size p := by
  induction p generalizing before s with
  | nil => rfl
  | cons c cs ih => simp [read_cons, ih, Nat.add_assoc]

/-- Advancing past a stretch reads it. -/
theorem advance_size_add (before p after : Text) (s : Scanner) :
    s.advance (s.offset + size p) before (p ++ after) = s.read before p after := by
  induction p generalizing before s with
  | nil => cases after <;> simp [advance]
  | cons c cs ih =>
    have hc := c.utf8Size_pos
    rw [List.cons_append, advance, if_pos (by simp; omega), read_cons, ← ih, step_offset,
      Text.size_cons, Nat.add_assoc]

/-- Scanning from the beginning up to the end of a prefix reads the prefix. -/
theorem ofOffset_size (p x : Text) : ofOffset (p ++ x) (size p) = ({} : Scanner).read [] p x := by
  have h := advance_size_add [] p x {}
  rw [ofOffset, Text.isBoundary_size p x, advanceTo]
  simpa using h

/-- Scanning from the beginning reads what lies before the offset. -/
theorem ofOffset_eq_read (t : Text) (n : Nat) :
    ofOffset t n = ({} : Scanner).read [] (t.takeBytes n) (t.dropBytes n) := by
  have h := ofOffset_size (t.takeBytes n) (t.dropBytes n)
  rw [Text.takeBytes_append_dropBytes] at h
  rw [← h, ofOffset, ofOffset]
  exact congrArg (advanceTo t · {}) (Text.isBoundary_floorBoundary t n).symm

@[simp] theorem ofOffset_offset (t : Text) (n : Nat) :
    (ofOffset t n).offset = t.floorBoundary n := by
  rw [ofOffset_eq_read, read_offset, Nat.zero_add, Text.floorBoundary]

/-- Advancing from the end of one prefix to the end of a longer one. -/
theorem read_advanceTo (p q x : Text) :
    (({} : Scanner).read [] p (q ++ x)).advanceTo (p ++ (q ++ x)) (size p + size q) =
      ({} : Scanner).read [] (p ++ q) x := by
  have h := advance_size_add p.reverse q x (({} : Scanner).read [] p (q ++ x))
  simp only [read_offset, Nat.zero_add] at h
  rw [advanceTo, read_offset, Nat.zero_add, Text.takeBytes_size, Text.dropBytes_size, h,
    read_append, List.append_nil]

end Scanner

end Offside.Lexical
