import Offside.Proofs.Lexical.Grammar
import Offside.Proofs.Lexical.Shape
import Mathlib.Data.List.Forall2

/-!
# Recorded offsets

A scanner records the offsets at which the open string or comment and the open brackets begin.
When two texts differ in the indentation of their rows only, the scanners of both record
corresponding offsets: the same place after the indentation of the same row.

* `Zone.Aligned`, `State.Aligned`, `Scanner.Aligned`: equal up to offsets that a relation matches;
* `Scanner.Aligned.step`, `read`: aligned scanners stay aligned if the offsets of the characters
  that they read match;
* `Scanner.Aligned.row`, `rows`: rows that differ in their indentation only.
-/

namespace Offside.Lexical

open Text (size)

variable {place : Nat → Nat → Prop}

/-- Zones of the same kind, with the same quote and fence, that began at matching offsets. -/
inductive Zone.Aligned (place : Nat → Nat → Prop) : Zone → Zone → Prop
  | code : Aligned place .code .code
  | string (quote : Char) (fence : Fence) {a b : Nat} (h : place a b) :
    Aligned place (.string ⟨quote, fence, a⟩) (.string ⟨quote, fence, b⟩)
  | comment {a b : Nat} (h : place a b) : Aligned place (.comment a) (.comment b)

/-- States whose zones match, and whose open brackets match one by one. -/
structure State.Aligned (place : Nat → Nat → Prop) (s t : State) : Prop where
  zone : s.zone.Aligned place t.zone
  parens : List.Forall₂ place s.parens t.parens

/-! ### Where things begin -/

/-- The characters at which strings, comments and brackets begin. -/
def Begins (c : Char) : Prop := c = '#' ∨ IsQuote c ∨ IsOpening c

instance (c : Char) : Decidable (Begins c) := inferInstanceAs (Decidable (_ ∨ _ ∨ _))

/-- A text read backwards that does not end in the letters of a word. -/
def NoWord (before : Text) : Prop := ∀ c ∈ before.head?, isMarkChar c = false

/-- A word does not reach back over such a text. -/
theorem NoWord.takeWhile_append {before : Text} (h : NoWord before) (u : Text) :
    (u ++ before).takeWhile isMarkChar = u.takeWhile isMarkChar := by
  have hnil : before.takeWhile isMarkChar = [] := by
    cases before with
    | nil => rfl
    | cons c cs => rw [List.takeWhile_cons, h c rfl, if_neg Bool.false_ne_true]
  rw [List.takeWhile_append, hnil, List.append_nil]
  split
  · next hlength => exact ((List.takeWhile_prefix _).eq_of_length hlength).symm
  · rfl

theorem NoWord.indentation {i before : Text} (hi : Text.IsIndentation i) (h : NoWord before) :
    NoWord (i.reverse ++ before) := by
  intro c hc
  rw [List.head?_append] at hc
  cases hr : i.reverse with
  | nil => exact h c (by simpa [hr] using hc)
  | cons d ds =>
    obtain rfl : d = c := by simpa [hr] using hc
    have hd := hi d (List.mem_reverse.1 (hr ▸ List.mem_cons_self))
    simp only [isIndentChar, Bool.or_eq_true, beq_iff_eq] at hd
    rcases hd with (rfl | rfl) | rfl <;> decide

theorem NoWord.newline (before : Text) : NoWord ('\n' :: before) := by
  intro c hc
  obtain rfl : '\n' = c := by simpa using hc
  decide

theorem NoWord.row {r : Text} (h : Text.IsFullRow r) (before : Text) :
    NoWord (r.reverse ++ before) := by
  obtain ⟨b, -, rfl⟩ := h
  rw [List.reverse_concat]
  exact newline (b.reverse ++ before)

/-- Nothing begins in the terminator of a line. -/
theorem not_begins_ending (e : Ending) : ∀ c ∈ e.text, ¬ Begins c := by
  intro c hc
  have hline : c = '\r' ∨ c = '\n' := by
    cases e with
    | none => cases hc
    | lf => exact .inr (List.mem_singleton.1 hc)
    | crlf => simpa [Ending.text] using hc
  rcases hline with rfl | rfl <;> decide

theorem length_le_size (t : Text) : t.length ≤ size t := by
  induction t with
  | nil => exact Nat.le_refl 0
  | cons c cs ih =>
    have := c.utf8Size_pos
    rw [List.length_cons, Text.size_cons]
    omega

/-- The letters before a quote are looked for in the row of the quote only. -/
theorem stringStart_append {b : Text} (hb : NoWord b) (u : Text) (a : Nat) :
    stringStart (u.reverse ++ b) (a + size u) = a + stringStart u.reverse (size u) := by
  have hle : (u.reverse.takeWhile isMarkChar).length ≤ size u := by
    have hprefix := (List.takeWhile_prefix isMarkChar (l := u.reverse)).length_le
    rw [List.length_reverse] at hprefix
    exact hprefix.trans (length_le_size u)
  unfold stringStart
  dsimp only
  rw [hb.takeWhile_append]
  split
  · omega
  · rfl

namespace Scanner

/-- Scanners that differ only in where they are, and in offsets that match. -/
structure Aligned (place : Nat → Nat → Prop) (s t : Scanner) : Prop where
  state : s.state.Aligned place t.state
  skip : s.skip = t.skip
  closePending : s.closePending = t.closePending

namespace Aligned

variable {s t : Scanner} {before before' : Text} {c : Char}

theorem init : Aligned place {} {} := ⟨⟨.code, .nil⟩, rfl, rfl⟩

theorem moved (h : Aligned place s t) (c c' : Char) : Aligned place (s.moved c) (t.moved c') :=
  ⟨h.state, h.skip, h.closePending⟩

theorem enter (h : Aligned place s t) {z w : Zone} (hz : z.Aligned place w) :
    Aligned place (s.enter z) (t.enter w) :=
  ⟨⟨hz, h.state.parens⟩, h.skip, h.closePending⟩

theorem withSkip (h : Aligned place s t) (n : Nat) (b : Bool) :
    Aligned place { s with skip := n, closePending := b } { t with skip := n, closePending := b } :=
  ⟨h.state, rfl, rfl⟩

/-! ### Steps -/

theorem stepToken (h : Aligned place s t) : Aligned place s.stepToken t.stepToken := by
  by_cases hs : s.skip = 1 ∧ s.closePending = true
  · rw [stepToken_of_close hs, stepToken_of_close (by rwa [← h.skip, ← h.closePending])]
    exact (h.enter .code).withSkip 0 false
  · rw [stepToken_of_not_close hs, stepToken_of_not_close (by rwa [← h.skip, ← h.closePending]),
      ← h.skip]
    exact ⟨h.state, rfl, h.closePending⟩

theorem stepString (h : Aligned place s t) (quote : Char) (fence : Fence) (a b : Nat) (c : Char)
    (after : Text) :
    Aligned place (s.stepString ⟨quote, fence, a⟩ c after)
      (t.stepString ⟨quote, fence, b⟩ c after) := by
  unfold Scanner.stepString
  dsimp only
  split
  · exact ⟨h.state, rfl, h.closePending⟩
  split
  · exact h.enter .code
  split
  · cases fence with
    | single => exact h.enter .code
    | triple =>
      dsimp only
      split
      · exact h.withSkip 2 true
      · exact h
  · exact h

theorem stepCode (h : Aligned place s t) {here here' : Nat} {after : Text}
    (hc : Begins c → place here here' ∧
      place (stringStart before here) (stringStart before' here')) :
    Aligned place (s.stepCode here before c after) (t.stepCode here' before' c after) := by
  unfold Scanner.stepCode
  split
  · next hhash => exact h.enter (.comment (hc (.inl hhash)).1)
  split
  · next hquote =>
    have hstart := (hc (.inr (.inl hquote))).2
    split
    · exact ⟨⟨.string c .triple hstart, h.state.parens⟩, rfl, h.closePending⟩
    · exact h.enter (.string c .single hstart)
  split
  · next hopen =>
    exact ⟨⟨h.state.zone, .cons (hc (.inr (.inr hopen))).1 h.state.parens⟩, h.skip, h.closePending⟩
  split
  · refine ⟨⟨h.state.zone, ?_⟩, h.skip, h.closePending⟩
    simpa using List.forall₂_drop 1 h.state.parens
  · exact h

/-- A step keeps scanners aligned if what begins there begins at matching offsets. -/
theorem step (h : Aligned place s t) {after : Text}
    (hc : Begins c → place s.offset t.offset ∧
      place (stringStart before s.offset) (stringStart before' t.offset)) :
    Aligned place (s.step before c after) (t.step before' c after) := by
  rcases Nat.eq_zero_or_pos s.skip with hs | hs
  · have ht : t.skip = 0 := h.skip ▸ hs
    have hzone := h.state.zone
    cases hz : s.state.zone <;> cases hw : t.state.zone <;> rw [hz, hw] at hzone <;> cases hzone
    · rw [step_of_code hs hz, step_of_code ht hw]
      exact (h.moved c c).stepCode hc
    · rw [step_of_string hs hz, step_of_string ht hw]
      exact (h.moved c c).stepString ..
    · rw [step_of_comment hs hz, step_of_comment ht hw]
      split
      · exact (h.moved c c).enter .code
      · exact h.moved c c
  · rw [step_of_skip hs, step_of_skip (h.skip ▸ hs)]
    exact (h.moved c c).stepToken

/-- Reading the same stretch at matching offsets. -/
theorem read {p u b b' : Text} {a a' : Nat} (h : Aligned place s t) (hb : NoWord b)
    (hb' : NoWord b') (hs : s.offset = a + size u) (ht : t.offset = a' + size u)
    (hplace : ∀ k, k < size (u ++ p) → place (a + k) (a' + k)) (after : Text) :
    Aligned place (s.read (u.reverse ++ b) p after) (t.read (u.reverse ++ b') p after) := by
  induction p generalizing s t u with
  | nil => exact h
  | cons c cs ih =>
    have hlt : size u < size (u ++ c :: cs) := by
      have := c.utf8Size_pos
      rw [Text.size_append, Text.size_cons]
      omega
    have hstep : Aligned place (s.step (u.reverse ++ b) c (cs ++ after))
        (t.step (u.reverse ++ b') c (cs ++ after)) := by
      refine h.step fun _ => ?_
      rw [hs, ht, stringStart_append hb, stringStart_append hb']
      exact ⟨hplace _ hlt, hplace _ (Nat.lt_of_le_of_lt (stringStart_le _ _) hlt)⟩
    have htail := ih (u := u ++ [c]) hstep (by simp [hs, Nat.add_assoc])
      (by simp [ht, Nat.add_assoc]) (by simpa using hplace)
    simpa [read_cons] using htail

/-- Reading a stretch in which nothing begins. -/
theorem read_of_not_begins {p : Text} (h : Aligned place s t) (hp : ∀ c ∈ p, ¬ Begins c)
    (after : Text) : Aligned place (s.read before p after) (t.read before' p after) := by
  induction p generalizing s t before before' with
  | nil => exact h
  | cons c cs ih =>
    have hstep : Aligned place (s.step before c (cs ++ after)) (t.step before' c (cs ++ after)) :=
      h.step fun hc => absurd hc (hp c List.mem_cons_self)
    exact ih hstep fun k hk => hp k (List.mem_cons_of_mem c hk)

/-! ### Rows -/

/-- Rows that differ in their indentation only, before texts that look the same or with line feeds
at their ends, keep scanners aligned if the offsets after both indentations match. -/
theorem row {i j p e x y : Text} (ha : Aligned place s t) (h : Reached before s)
    (h' : Reached before' t) (hs : s.skip = 0) (hb : NoWord before) (hb' : NoWord before')
    (hi : Text.IsIndentation i) (hj : Text.IsIndentation j) (he : ∀ c ∈ e, ¬ Begins c)
    (hplace : ∀ k, k < size p → place (s.offset + size i + k) (t.offset + size j + k))
    (hend : SameLook x y ∨ ∃ b, p ++ e = b ++ ['\n']) :
    Aligned place (s.read before (i ++ (p ++ e)) x) (t.read before' (j ++ (p ++ e)) y) := by
  have ht : t.skip = 0 := ha.skip ▸ hs
  -- what follows does not count, so let it be the same
  have hsame : t.read before' (j ++ (p ++ e)) y = t.read before' (j ++ (p ++ e)) x := by
    rcases hend with hlook | ⟨b, hb⟩
    · exact (read_congr h' hlook).symm
    · rw [hb, ← List.append_assoc, read_newline_congr h' y x]
  rw [hsame, read_append, read_append before', read_indentation h hs hi, read_indentation h' ht hj,
    read_append, read_append (j.reverse ++ before')]
  have hmoved : Aligned place { s with offset := s.offset + size i }
      { t with offset := t.offset + size j } := ⟨ha.state, ha.skip, ha.closePending⟩
  refine read_of_not_begins ?_ he x
  exact hmoved.read (u := []) (hb.indentation hi) (hb'.indentation hj) (Nat.add_zero _).symm
    (Nat.add_zero _).symm hplace (e ++ x)

/-- Whole rows that differ in their indentation only. -/
theorem rows {rs rs' : List Text} (ha : Aligned place s t) (h : Reached before s)
    (h' : Reached before' t) (hs : s.skip = 0) (hb : NoWord before) (hb' : NoWord before')
    (hmap : rs.map Text.afterIndentation = rs'.map Text.afterIndentation)
    (hfull : ∀ r ∈ rs, Text.IsFullRow r)
    (hplace : ∀ pre r post pre' r' post', rs = pre ++ r :: post → rs' = pre' ++ r' :: post' →
      pre.length = pre'.length → ∀ k, k < size (Line.ofRow 0 r.afterIndentation).body →
        place (s.offset + size pre.flatten + size r.indentation + k)
          (t.offset + size pre'.flatten + size r'.indentation + k)) (x y : Text) :
    Aligned place (s.read before rs.flatten x) (t.read before' rs'.flatten y) := by
  induction rs generalizing s t before before' rs' with
  | nil =>
    obtain rfl : rs' = [] := by simpa using hmap.symm
    exact ha
  | cons r rs ih =>
    obtain ⟨r', rs', rfl⟩ : ∃ u us, rs' = u :: us := by
      cases rs' with
      | nil => cases hmap
      | cons u us => exact ⟨u, us, rfl⟩
    obtain ⟨hrow, hrest⟩ := List.cons_eq_cons.1 hmap
    have hfull' : Text.IsFullRow r' := by
      have := Text.isFullRow_indent r'.isIndentation_indentation (hfull r List.mem_cons_self)
      rwa [hrow, Text.indentation_append_afterIndentation] at this
    obtain ⟨u, -, hu⟩ := hfull r List.mem_cons_self
    obtain ⟨v, -, hv⟩ := Text.isFullRow_afterIndentation (hfull r List.mem_cons_self)
    -- the first row, cut into indentation, body and terminator
    have hparts := Line.ofRow_row 0 r.afterIndentation
    rw [Line.row] at hparts
    have hfirst := ha.row (x := rs.flatten ++ x) (y := rs'.flatten ++ y) h h' hs hb hb'
      r.isIndentation_indentation r'.isIndentation_indentation
      (not_begins_ending _)
      (hplace [] r rs [] r' rs' rfl rfl rfl) (.inr ⟨v, hparts.trans hv⟩)
    rw [hparts] at hfirst
    nth_rewrite 2 [hrow] at hfirst
    rw [Text.indentation_append_afterIndentation,
      Text.indentation_append_afterIndentation] at hfirst
    rw [List.flatten_cons, List.flatten_cons, read_append, read_append before']
    refine ih hfirst (h.read (rs.flatten ++ x)) (h'.read (rs'.flatten ++ y))
      (skip_read_of_endsLine h hs (.inr ⟨u, hu⟩) _) ?_ ?_ hrest
      (fun q hq => hfull q (List.mem_cons_of_mem r hq)) ?_
    · exact .row (hfull r List.mem_cons_self) before
    · exact .row hfull' before'
    · intro pre q post pre' q' post' hrs hrs' hlength k hk
      have := hplace (r :: pre) q post (r' :: pre') q' post' (by rw [hrs]; rfl) (by rw [hrs']; rfl)
        (by simp [hlength]) k hk
      simpa [Nat.add_assoc] using this

end Aligned

end Scanner

end Offside.Lexical
