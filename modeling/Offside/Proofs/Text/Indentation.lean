import Offside.Proofs.Text.Rows
import Mathlib.Data.List.TakeWhile

/-!
# Indentation of rows

A row is its indentation followed by the rest, and the rest alone decides its terminator and what is
left of it after trimming.  The indentation that is written for a width has that width.

* `indentation_append`, `afterIndentation_append`: a row with other indentation put in front;
* `trimStart_of_afterIndentation`: trimming does not see the indentation;
* `displayWidth_indentString`: the width of written indentation;
* `Line.ofRow_append`, `Line.indentation_body_ofRow`: the line of a row, and its indentation;
* `isFullRow_indent`, `not_mem_newline_indent`: a row with other indentation ends in the same way.
-/

namespace Offside

namespace Text

/-- A text of indentation characters only. -/
def IsIndentation (t : Text) : Prop := ∀ c ∈ t, isIndentChar c = true

theorem isIndentation_indentation (t : Text) : IsIndentation t.indentation :=
  fun _ hc => List.mem_takeWhile_imp hc

theorem isIndentation_indentString (width : Nat) (useTabs : Bool) (tabWidth : Nat) :
    IsIndentation (indentString width useTabs tabWidth) := by
  intro c hc
  unfold indentString at hc
  split at hc
  · rcases List.mem_append.1 hc with hc | hc
    · rw [List.eq_of_mem_replicate hc]
      rfl
    · rw [List.eq_of_mem_replicate hc]
      rfl
  · rw [List.eq_of_mem_replicate hc]
    rfl

section Append

variable {i q : Text}

theorem indentation_append (hi : IsIndentation i) : (i ++ q).indentation = i ++ q.indentation :=
  List.takeWhile_append_of_pos hi

theorem afterIndentation_append (hi : IsIndentation i) :
    (i ++ q).afterIndentation = q.afterIndentation :=
  List.dropWhile_append_of_pos hi

/-- What follows the indentation does not begin with any. -/
@[simp] theorem indentation_afterIndentation (t : Text) : t.afterIndentation.indentation = [] := by
  induction t with
  | nil => rfl
  | cons c cs ih =>
    by_cases hc : isIndentChar c = true
    · simpa [afterIndentation, hc] using ih
    · simp [afterIndentation, indentation, hc]

@[simp] theorem afterIndentation_afterIndentation (t : Text) :
    t.afterIndentation.afterIndentation = t.afterIndentation := by
  have h := indentation_append_afterIndentation t.afterIndentation
  rwa [indentation_afterIndentation, List.nil_append] at h

end Append

/-- A row with other indentation is the same row only if the indentation is the same. -/
theorem append_afterIndentation_eq_iff {i row : Text} :
    i ++ row.afterIndentation = row ↔ row.indentation = i := by
  conv_lhs => rhs; rw [← indentation_append_afterIndentation row]
  rw [List.append_left_inj, eq_comm]

theorem isWhiteSpace_of_isIndentChar {c : Char} (h : isIndentChar c = true) :
    isWhiteSpace c = true := by
  simp only [isIndentChar, Bool.or_eq_true, beq_iff_eq] at h
  rcases h with (rfl | rfl) | rfl <;> rfl

/-- Trimming does not see the indentation. -/
@[simp] theorem trimStart_afterIndentation (t : Text) :
    t.afterIndentation.trimStart = t.trimStart := by
  induction t with
  | nil => rfl
  | cons c cs ih =>
    by_cases hc : isIndentChar c = true
    · have hw := isWhiteSpace_of_isIndentChar hc
      simpa [afterIndentation, trimStart, hc, hw] using ih
    · simp [afterIndentation, hc]

theorem trimStart_of_afterIndentation {s t : Text} (h : s.afterIndentation = t.afterIndentation) :
    s.trimStart = t.trimStart := by
  rw [← trimStart_afterIndentation s, h, trimStart_afterIndentation]

/-! ### Widths -/

theorem displayWidth_append (tabWidth : Nat) (s t : Text) :
    displayWidth tabWidth (s ++ t) = t.foldl (nextColumn tabWidth) (displayWidth tabWidth s) := by
  rw [displayWidth, displayWidth, List.foldl_append]

theorem foldl_nextColumn_spaces (tabWidth n start : Nat) :
    (List.replicate n ' ').foldl (nextColumn tabWidth) start = start + n := by
  induction n generalizing start with
  | zero => rfl
  | succ n ih =>
    have hspace : nextColumn tabWidth start ' ' = start + 1 := rfl
    rw [List.replicate_succ, List.foldl_cons, hspace, ih]
    omega

theorem foldl_nextColumn_tabs {tabWidth : Nat} (h : 0 < tabWidth) (n k : Nat) :
    (List.replicate n '\t').foldl (nextColumn tabWidth) (k * tabWidth) = (k + n) * tabWidth := by
  induction n generalizing k with
  | zero => rfl
  | succ n ih =>
    have htab : nextColumn tabWidth (k * tabWidth) '\t' = (k + 1) * tabWidth := by
      have hmax : max tabWidth 1 = tabWidth := by omega
      rw [nextColumn, if_pos rfl, hmax, Nat.mul_div_cancel _ h]
    rw [List.replicate_succ, List.foldl_cons, htab, ih]
    congr 1
    omega

/-- The indentation written for a width has that width. -/
theorem displayWidth_indentString (width : Nat) (useTabs : Bool) (tabWidth : Nat) :
    displayWidth (max tabWidth 1) (indentString width useTabs tabWidth) = width := by
  unfold indentString
  split
  · next h =>
    have hmax : max tabWidth 1 = tabWidth := by omega
    have htabs := foldl_nextColumn_tabs h.2 (width / tabWidth) 0
    rw [Nat.zero_mul, Nat.zero_add] at htabs
    rw [hmax, displayWidth_append, displayWidth, htabs, foldl_nextColumn_spaces,
      Nat.div_add_mod']
  · rw [displayWidth, foldl_nextColumn_spaces, Nat.zero_add]

end Text

/-! ### Lines -/

/-- Terminators are white space. -/
theorem Ending.isWhiteSpace_text (e : Ending) : ∀ c ∈ e.text, isWhiteSpace c = true := by
  intro c hc
  cases e with
  | none => cases hc
  | lf =>
    obtain rfl := List.mem_singleton.1 hc
    rfl
  | crlf =>
    rcases List.mem_cons.1 hc with rfl | hc
    · rfl
    · obtain rfl := List.mem_singleton.1 hc
      rfl

/-- A text that ends in an odd number of backslashes ends in one. -/
theorem Text.exists_backslash {b : Text}
    (h : (b.reverse.takeWhile (· == '\\')).length % 2 = 1) : ∃ u, b = u ++ ['\\'] := by
  cases hr : b.reverse with
  | nil => simp [hr] at h
  | cons c cs =>
    by_cases hc : c = '\\'
    · subst hc
      exact ⟨cs.reverse, by simpa using congrArg List.reverse hr⟩
    · simp [hr, hc] at h

namespace Line

variable {i q : Text}

/-- A row with indentation in front has the same terminator, and the indentation stands in its
body. -/
theorem ofRow_append (hi : Text.IsIndentation i) (start : Nat) :
    ofRow start (i ++ q) = ⟨start, i ++ (ofRow start q).body, (ofRow start q).ending⟩ := by
  have hlast : ∀ c b, i.reverse = c :: b → c ≠ '\n' ∧ c ≠ '\r' := by
    intro c b hb
    have hc := hi c (List.mem_reverse.1 (hb ▸ List.mem_cons_self))
    constructor <;> rintro rfl <;> exact absurd hc (by decide)
  -- the terminator is read off the last two characters of `q`, if there are two
  unfold ofRow
  rw [List.reverse_append]
  rcases hq : q.reverse with _ | ⟨a, _ | ⟨b, rest⟩⟩
  · obtain rfl : q = [] := List.reverse_eq_nil_iff.1 hq
    rcases hr : i.reverse with _ | ⟨c, rest⟩
    · simp
    · have := (hlast c rest hr).1
      simp [this]
  · obtain rfl : q = [a] := by simpa using congrArg List.reverse hq
    by_cases ha : a = '\n'
    · subst ha
      rcases hr : i.reverse with _ | ⟨c, rest⟩
      · obtain rfl : i = [] := List.reverse_eq_nil_iff.1 hr
        simp
      · have hc := (hlast c rest hr).2
        obtain rfl : i = rest.reverse ++ [c] := by simpa using congrArg List.reverse hr
        simp [hc]
    · simp [ha]
  · obtain rfl : q = rest.reverse ++ [b, a] := by simpa using congrArg List.reverse hq
    by_cases ha : a = '\n'
    · subst ha
      by_cases hb : b = '\r'
      · subst hb
        simp
      · simp [hb]
    · simp [ha]

/-- The body of a line does not depend on where the line starts. -/
theorem body_ofRow_start (start : Nat) (row : Text) :
    (ofRow start row).body = (ofRow 0 row).body := by
  unfold ofRow
  split <;> rfl

theorem body_ofRow_eq (start : Nat) (row : Text) :
    (ofRow start row).body = row.indentation ++ (ofRow 0 row.afterIndentation).body := by
  have h := ofRow_append (q := row.afterIndentation) row.isIndentation_indentation start
  rw [Text.indentation_append_afterIndentation] at h
  rw [h, body_ofRow_start]

theorem indentation_body_afterIndentation (row : Text) :
    (ofRow 0 row.afterIndentation).body.indentation = [] := by
  have hrow := ofRow_row 0 row.afterIndentation
  have hnil := row.indentation_afterIndentation
  rw [Line.row] at hrow
  rw [← hrow] at hnil
  cases hbody : (ofRow 0 row.afterIndentation).body with
  | nil => rfl
  | cons c cs =>
    rw [hbody, List.cons_append] at hnil
    by_cases hc : isIndentChar c = true
    · simp [Text.indentation, hc] at hnil
    · simp [Text.indentation, hc]

/-- The indentation of a line is that of its row. -/
@[simp] theorem indentation_body_ofRow (start : Nat) (row : Text) :
    (ofRow start row).body.indentation = row.indentation := by
  rw [body_ofRow_eq, Text.indentation_append row.isIndentation_indentation,
    indentation_body_afterIndentation, List.append_nil]

/-- What follows the indentation of a line is the body of what follows that of its row. -/
theorem afterIndentation_body_ofRow (start : Nat) (row : Text) :
    (ofRow start row).body.afterIndentation = (ofRow 0 row.afterIndentation).body := by
  have h := Text.indentation_append_afterIndentation (ofRow 0 row.afterIndentation).body
  rw [indentation_body_afterIndentation, List.nil_append] at h
  rw [body_ofRow_eq, Text.afterIndentation_append row.isIndentation_indentation, h]

end Line

namespace Text

variable {i row : Text}

theorem IsIndentation.not_mem_newline (hi : IsIndentation i) : '\n' ∉ i := by
  intro h
  exact absurd (hi '\n' h) (by decide)

/-- A row without its indentation ends in the same way. -/
theorem isFullRow_afterIndentation (h : IsFullRow row) : IsFullRow row.afterIndentation := by
  obtain ⟨b, hb, rfl⟩ := h
  refine ⟨b.afterIndentation, fun hmem => hb ((List.dropWhile_suffix _).subset hmem), ?_⟩
  clear hb
  induction b with
  | nil => rfl
  | cons c cs ih =>
    by_cases hc : isIndentChar c = true
    · simpa [afterIndentation, hc] using ih
    · simp [afterIndentation, hc]

/-- A row with other indentation ends in the same way. -/
theorem isFullRow_indent (hi : IsIndentation i) (h : IsFullRow row) :
    IsFullRow (i ++ row.afterIndentation) := by
  obtain ⟨b, hb, hrow⟩ := isFullRow_afterIndentation h
  refine ⟨i ++ b, ?_, by rw [hrow, List.append_assoc]⟩
  intro hmem
  rcases List.mem_append.1 hmem with hmem | hmem
  · exact hi.not_mem_newline hmem
  · exact hb hmem

theorem not_mem_newline_indent (hi : IsIndentation i) (h : '\n' ∉ row) :
    '\n' ∉ i ++ row.afterIndentation := by
  intro hmem
  rcases List.mem_append.1 hmem with hmem | hmem
  · exact hi.not_mem_newline hmem
  · exact h ((List.dropWhile_suffix _).subset hmem)

end Text

end Offside
