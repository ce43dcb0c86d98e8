import Offside.Proofs.Lexical.Shape

/-!
# Code characters up to offsets and white space

The visible code of a stretch is the list of its code characters that are neither white space nor
backslashes, each with its depth but without its offset.  Like the shape of a scanner it does not
depend on offsets or on the indentation of lines.

* `Scanner.codeRead`: the code characters of a stretch, part by part (`codeRead_append`);
* `codeView_of_shape`: scanners of equal shape see the same code;
* `Scanner.SameReading`, `sameReading_row`, `sameReading_rows`, `sameReading_rows_append`: rows that
  differ in their indentation only are read in the same way.
-/

namespace Offside.Lexical

open Text (size)

namespace Scanner

variable {s t : Scanner} {before before' : Text} {base : Nat}

/-! ### The code characters of a stretch -/

/-- The code characters of `stretch`, which stands between `before`, read backwards, and `after`. -/
def codeRead (base : Nat) (before : Text) : Text → Text → Scanner → List CodeChar
  | [], _, _ => []
  | c :: cs, after, s =>
    let next := s.step before c (cs ++ after)
    let rest := codeRead base (c :: before) cs after next
    if s.isCode && next.state.isCode then
      ⟨s.offset, c, (min s.state.depth next.state.depth : Nat) - (base : Int)⟩ :: rest
    else rest

/-- The code characters up to the end of a stretch are those of the stretch. -/
theorem codeChars_size_add (base : Nat) (before p after : Text) (s : Scanner) :
    s.codeChars (s.offset + size p) base before (p ++ after) = s.codeRead base before p after := by
  induction p generalizing before s with
  | nil => exact codeChars_of_le (by simp) base before after
  | cons c cs ih =>
    have hc := c.utf8Size_pos
    have htail := ih (c :: before) (s.step before c (cs ++ after))
    rw [step_offset, Nat.add_assoc, ← Text.size_cons] at htail
    rw [List.cons_append, codeChars, if_pos (by rw [Text.size_cons]; omega), codeRead]
    dsimp only
    rw [htail]

/-- The code characters of a stretch are found part by part. -/
theorem codeRead_append (base : Nat) (before p q after : Text) (s : Scanner) :
    s.codeRead base before (p ++ q) after =
      s.codeRead base before p (q ++ after) ++
        (s.read before p (q ++ after)).codeRead base (p.reverse ++ before) q after := by
  induction p generalizing before s with
  | nil => rfl
  | cons c cs ih =>
    simp only [List.cons_append, codeRead, List.append_assoc, ih, read_cons,
      List.reverse_cons]
    split <;> rfl

/-- A stretch has the same code before texts that look the same. -/
theorem codeRead_congr {p x y : Text} (h : Reached before s) (hl : SameLook x y) (base : Nat) :
    s.codeRead base before p x = s.codeRead base before p y := by
  induction p generalizing before s with
  | nil => rfl
  | cons c cs ih =>
    rw [codeRead, codeRead, step_congr h (.inr (hl.append cs)), ih (h.step c (cs ++ y))]

/-- A stretch that ends with a line feed has the same code whatever follows. -/
theorem codeRead_newline_congr {p : Text} (h : Reached before s) (base : Nat) (x y : Text) :
    s.codeRead base before (p ++ ['\n']) x = s.codeRead base before (p ++ ['\n']) y := by
  rw [← codeChars_size_add, ← codeChars_size_add]
  exact codeChars_newline_congr h (Nat.le_refl _) base x y

end Scanner

/-! ### Visible code -/

/-- Whether a code character is neither white space nor a backslash. -/
def CodeChar.isVisible (c : CodeChar) : Bool := !isWhiteSpace c.char && c.char != '\\'

/-- The visible characters of code with their depths. -/
def codeView (cs : List CodeChar) : List (Char × Int) :=
  (cs.filter CodeChar.isVisible).map fun c => (c.char, c.depth)

@[simp] theorem codeView_append (cs ds : List CodeChar) :
    codeView (cs ++ ds) = codeView cs ++ codeView ds := by
  simp [codeView]

theorem codeView_cons (c : CodeChar) (cs : List CodeChar) :
    codeView (c :: cs) =
      if c.isVisible then (c.char, c.depth) :: codeView cs else codeView cs := by
  unfold codeView
  by_cases h : c.isVisible = true <;> simp [h]

namespace Scanner

variable {s t : Scanner} {before before' : Text} {base : Nat}

/-- Scanners of equal shape see the same code. -/
theorem codeView_of_shape (h : s.shape = t.shape) (base : Nat) (p after : Text) :
    codeView (s.codeRead base before p after) = codeView (t.codeRead base before' p after) := by
  induction p generalizing s t before before' with
  | nil => rfl
  | cons c cs ih =>
    have hnext : (s.step before c (cs ++ after)).shape = (t.step before' c (cs ++ after)).shape :=
      shape_step h c (cs ++ after)
    have hstate := state_of_shape hnext
    rw [codeRead, codeRead]
    rw [isCode_of_shape h, State.isCode_of_shape hstate]
    split
    · rw [codeView_cons, codeView_cons, State.depth_of_shape (state_of_shape h),
        State.depth_of_shape hstate, ih hnext]
      rfl
    · exact ih hnext

/-- White space is not visible. -/
theorem codeView_of_isWhiteSpace {p : Text} (hp : ∀ c ∈ p, isWhiteSpace c = true) (base : Nat)
    (after : Text) : codeView (s.codeRead base before p after) = [] := by
  induction p generalizing s before with
  | nil => rfl
  | cons c cs ih =>
    have hc := hp c List.mem_cons_self
    have hcs := fun k hk => hp k (List.mem_cons_of_mem c hk)
    rw [codeRead]
    split
    · rw [codeView_cons, if_neg (by simp [CodeChar.isVisible, hc])]
      exact ih hcs
    · exact ih hcs

/-! ### Rows -/

/-- Two readings that lead to the same shape past the same visible code. -/
def SameReading (s t : Scanner) (before before' p p' x x' : Text) : Prop :=
  (s.read before p x).shape = (t.read before' p' x').shape ∧
    ∀ base, codeView (s.codeRead base before p x) = codeView (t.codeRead base before' p' x')

/-- Two parts that are read in the same way one after the other. -/
theorem SameReading.append {p p' q q' x x' : Text}
    (h : SameReading s t before before' p p' (q ++ x) (q' ++ x'))
    (h' : SameReading (s.read before p (q ++ x)) (t.read before' p' (q' ++ x')) (p.reverse ++ before)
      (p'.reverse ++ before') q q' x x') :
    SameReading s t before before' (p ++ q) (p' ++ q') x x' := by
  constructor
  · rw [read_append before p, read_append before' p']
    exact h'.1
  · intro base
    rw [codeRead_append, codeRead_append, codeView_append, codeView_append, h.2 base, h'.2 base]

variable {i j q x y : Text}

/-- Rows that differ in their indentation only are read in the same way, before texts that look the
same; what follows them does not count if they end with a line feed. -/
theorem sameReading_row (h : Reached before s) (h' : Reached before' t) (hs : s.skip = 0)
    (hshape : s.shape = t.shape) (hi : Text.IsIndentation i) (hj : Text.IsIndentation j)
    (hend : SameLook x y ∨ ∃ b, q = b ++ ['\n']) :
    SameReading s t before before' (i ++ q) (j ++ q) x y := by
  have ht : t.skip = 0 := by rw [← skip_of_shape hshape, hs]
  have hspace : ∀ {u : Text}, Text.IsIndentation u → ∀ c ∈ u, isWhiteSpace c = true :=
    fun hu c hc => Text.isWhiteSpace_of_isIndentChar (hu c hc)
  have hsame : (s.read before i (q ++ x)).shape = (t.read before' j (q ++ y)).shape := by
    rw [shape_read_indentation h hs hi, shape_read_indentation h' ht hj, hshape]
  have hreach : Reached (j.reverse ++ before') (t.read before' j (q ++ y)) := h'.read (q ++ y)
  constructor
  · have hrest : ((s.read before i (q ++ x)).read (i.reverse ++ before) q x).shape =
        ((t.read before' j (q ++ y)).read (j.reverse ++ before') q x).shape := shape_read hsame q x
    rw [read_append, read_append, hrest]
    rcases hend with hlook | ⟨b, rfl⟩
    · rw [read_congr hreach hlook]
    · rw [read_newline_congr hreach x y]
  · intro base
    have hrest : codeView ((s.read before i (q ++ x)).codeRead base (i.reverse ++ before) q x) =
        codeView ((t.read before' j (q ++ y)).codeRead base (j.reverse ++ before') q x) :=
      codeView_of_shape hsame base q x
    rw [codeRead_append, codeRead_append, codeView_append, codeView_append,
      codeView_of_isWhiteSpace (hspace hi), codeView_of_isWhiteSpace (hspace hj), hrest]
    rcases hend with hlook | ⟨b, rfl⟩
    · rw [codeRead_congr hreach hlook]
    · rw [codeRead_newline_congr hreach base x y]

/-- Whole rows that differ in their indentation only are read in the same way. -/
theorem sameReading_rows {rs rs' : List Text} (h : Reached before s) (h' : Reached before' t)
    (hs : s.skip = 0) (hshape : s.shape = t.shape)
    (hmap : rs.map Text.afterIndentation = rs'.map Text.afterIndentation)
    (hfull : ∀ r ∈ rs, Text.IsFullRow r) (x y : Text) :
    SameReading s t before before' rs.flatten rs'.flatten x y := by
  induction rs generalizing s t before before' rs' with
  | nil =>
    obtain rfl : rs' = [] := by simpa using hmap.symm
    exact ⟨hshape, fun base => rfl⟩
  | cons r rs ih =>
    obtain ⟨r', rs', rfl⟩ : ∃ u us, rs' = u :: us := by
      cases rs' with
      | nil => cases hmap
      | cons u us => exact ⟨u, us, rfl⟩
    obtain ⟨hrow, hrest⟩ := List.cons_eq_cons.1 hmap
    obtain ⟨b, -, hb⟩ := Text.isFullRow_indent (i := []) (fun c hc => nomatch hc)
      (hfull r List.mem_cons_self)
    -- the first row, then the induction hypothesis from where it ends
    have hfirst := sameReading_row (x := rs.flatten ++ x) (y := rs'.flatten ++ y) h h' hs hshape
      r.isIndentation_indentation r'.isIndentation_indentation (.inr ⟨b, hb⟩)
    nth_rewrite 2 [List.nil_append, hrow] at hfirst
    rw [List.nil_append, Text.indentation_append_afterIndentation,
      Text.indentation_append_afterIndentation] at hfirst
    have hskip : (s.read before r (rs.flatten ++ x)).skip = 0 := by
      obtain ⟨u, -, rfl⟩ := hfull r List.mem_cons_self
      exact skip_read_of_endsLine h hs (.inr ⟨u, rfl⟩) _
    have htail := ih (h.read (rs.flatten ++ x)) (h'.read (rs'.flatten ++ y)) hskip hfirst.1 hrest
      fun u hu => hfull u (List.mem_cons_of_mem r hu)
    rw [List.flatten_cons, List.flatten_cons]
    exact hfirst.append htail

/-- Whole rows and one more, which may be the last of its text. -/
theorem sameReading_rows_append {rs rs' : List Text} {r r' : Text} (h : Reached before s)
    (h' : Reached before' t) (hs : s.skip = 0) (hshape : s.shape = t.shape)
    (hmap : rs.map Text.afterIndentation = rs'.map Text.afterIndentation)
    (hfull : ∀ r ∈ rs, Text.IsFullRow r) (hrow : r.afterIndentation = r'.afterIndentation)
    (hend : SameLook x y ∨ ∃ b, r.afterIndentation = b ++ ['\n']) :
    SameReading s t before before' (rs.flatten ++ r) (rs'.flatten ++ r') x y := by
  have hrows := sameReading_rows h h' hs hshape hmap hfull (r ++ x) (r' ++ y)
  have hskip := skip_read_of_endsLine h hs (Text.endsLine_flatten hfull) (r ++ x)
  have hlast := sameReading_row (h.read (r ++ x)) (h'.read (r' ++ y)) hskip hrows.1
    r.isIndentation_indentation r'.isIndentation_indentation hend
  nth_rewrite 2 [hrow] at hlast
  rw [Text.indentation_append_afterIndentation, Text.indentation_append_afterIndentation] at hlast
  exact hrows.append hlast

end Scanner

end Offside.Lexical
