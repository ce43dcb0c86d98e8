import Offside.Proofs.Lexical.CodeFilter
import Offside.Proofs.Lexical.Places
import Mathlib.Data.List.Induction

/-!
# What is open, and where it began

The brackets that are open at a position, and the string or comment around it, are known to the
scanner by the offsets at which they began.  These offsets are in order: each bracket began after
the one around it, and the string or comment after all of them, although the letters before its
first quote are counted to it.  So the innermost of all that is open is what began last.

* `Scanner.Move`, `move_step`: what a step can do, case by case;
* `Scanner.Ordered`: the offsets of what is open are in order;
* `Scanner.Closing`: a string that is about to be closed has three quotes;
* `opensInCode_read`: every open bracket is a bracket of code;
* `scanners`, `mem_scanners_iff`: all scanners of a text;
* `Scanner.IsValid`, `isValid_of_mem_scanners`: what holds of all of them.
-/

namespace Offside.Lexical

open Text (size)

namespace Scanner

/-! ### What a step does -/

/-- The scanner with other brackets open. -/
def withParens (s : Scanner) (parens : List Nat) : Scanner :=
  { s with state := { s.state with parens } }

/-- What one character does to a scanner, by where the scanner stands. -/
inductive Move (before : Text) (c : Char) (after : Text) (s : Scanner) : Scanner → Prop
  | skipped (hs : 0 < s.skip) (hclose : ¬ (s.skip = 1 ∧ s.closePending = true)) :
    Move before c after s { s.moved c with skip := s.skip - 1 }
  | closed (hs : s.skip = 1) (hclose : s.closePending = true) :
    Move before c after s { (s.moved c).enter .code with skip := 0, closePending := false }
  | escape {o : OpenString} (hs : s.skip = 0) (hz : s.state.zone = .string o) (hc : c = '\\') :
    Move before c after s { s.moved c with skip := escapeLength after }
  | endString {o : OpenString} (hs : s.skip = 0) (hz : s.state.zone = .string o)
    (hfence : o.fence = .single) (hc : c = '\n' ∨ c = o.quote) :
    Move before c after s ((s.moved c).enter .code)
  | fence {o : OpenString} (hs : s.skip = 0) (hz : s.state.zone = .string o)
    (hfence : o.fence = .triple) (hc : c = o.quote) (ht : opensTriple c after = true) :
    Move before c after s { s.moved c with skip := 2, closePending := true }
  | inString {o : OpenString} (hs : s.skip = 0) (hz : s.state.zone = .string o) (hc : c ≠ '\\')
    (hend : o.fence = .single → c ≠ '\n' ∧ c ≠ o.quote) :
    Move before c after s (s.moved c)
  | endComment {start : Nat} (hs : s.skip = 0) (hz : s.state.zone = .comment start)
    (hc : c = '\n') :
    Move before c after s ((s.moved c).enter .code)
  | inComment {start : Nat} (hs : s.skip = 0) (hz : s.state.zone = .comment start) (hc : c ≠ '\n') :
    Move before c after s (s.moved c)
  | comment (hs : s.skip = 0) (hz : s.state.zone = .code) (hc : c = '#') :
    Move before c after s ((s.moved c).enter (.comment s.offset))
  | triple (hs : s.skip = 0) (hz : s.state.zone = .code) (hc : IsQuote c)
    (ht : opensTriple c after = true) :
    Move before c after s
      { (s.moved c).enter (.string ⟨c, .triple, stringStart before s.offset⟩) with skip := 2 }
  | single (hs : s.skip = 0) (hz : s.state.zone = .code) (hc : IsQuote c)
    (ht : opensTriple c after = false) :
    Move before c after s ((s.moved c).enter (.string ⟨c, .single, stringStart before s.offset⟩))
  | opening (hs : s.skip = 0) (hz : s.state.zone = .code) (hc : IsOpening c) :
    Move before c after s ((s.moved c).withParens (s.offset :: s.state.parens))
  | closing (hs : s.skip = 0) (hz : s.state.zone = .code) (hc : IsClosing c) :
    Move before c after s ((s.moved c).withParens s.state.parens.tail)
  | inCode (hs : s.skip = 0) (hz : s.state.zone = .code) (hc : ¬ Begins c ∧ ¬ IsClosing c) :
    Move before c after s (s.moved c)

variable {before after : Text} {c : Char} {s : Scanner} {o : OpenString}

theorem move_stepString (hs : s.skip = 0) (hz : s.state.zone = .string o) :
    Move before c after s ((s.moved c).stepString o c after) := by
  unfold stepString
  split
  · next hc => exact .escape hs hz hc
  next hescape =>
  split
  · next hc => exact .endString hs hz hc.2 (.inl hc.1)
  next hnewline =>
  split
  · next hquote =>
    cases hfence : o.fence with
    | single => exact .endString hs hz hfence (.inr hquote)
    | triple =>
      dsimp only
      split
      · next ht => exact .fence hs hz hfence hquote ht
      · exact .inString hs hz hescape fun h => nomatch hfence.symm.trans h
  · next hquote => exact .inString hs hz hescape fun h => ⟨fun hc => hnewline ⟨hc, h⟩, hquote⟩

theorem move_stepCode (hs : s.skip = 0) (hz : s.state.zone = .code) :
    Move before c after s ((s.moved c).stepCode s.offset before c after) := by
  unfold stepCode
  split
  · next hc => exact .comment hs hz hc
  next hhash =>
  split
  · next hc =>
    split
    · next ht => exact .triple hs hz hc ht
    · next ht => exact .single hs hz hc (Bool.eq_false_iff.2 ht)
  next hquote =>
  split
  · next hc => exact .opening hs hz hc
  next hopen =>
  split
  · next hc => exact .closing hs hz hc
  · next hclose => exact .inCode hs hz ⟨by rintro (h | h | h) <;> contradiction, hclose⟩

/-- Every step is one of the moves. -/
theorem move_step (before : Text) (c : Char) (after : Text) (s : Scanner) :
    Move before c after s (s.step before c after) := by
  rcases Nat.eq_zero_or_pos s.skip with hs | hs
  · cases hz : s.state.zone with
    | code =>
      rw [step_of_code hs hz]
      exact move_stepCode hs hz
    | string o =>
      rw [step_of_string hs hz]
      exact move_stepString hs hz
    | comment start =>
      rw [step_of_comment hs hz]
      split
      · next hc => exact .endComment hs hz hc
      · next hc => exact .inComment hs hz hc
  · rw [step_of_skip hs]
    by_cases hclose : s.skip = 1 ∧ s.closePending = true
    · rw [stepToken_of_close (s := s.moved c) hclose]
      exact .closed hclose.1 hclose.2
    · rw [stepToken_of_not_close (s := s.moved c) hclose]
      exact .skipped hs hclose

end Scanner

/-! ### Offsets in order -/

/-- The offset at which the string or comment of a zone began. -/
def Zone.start? : Zone → Option Nat
  | .code => none
  | .string o => some o.start
  | .comment start => some start

/-- The offsets at which all that is open began: the string or comment, and the brackets. -/
def State.starts (s : State) : List Nat := s.zone.start?.toList ++ s.parens

theorem State.starts_of_code {s : State} (h : s.zone = .code) : s.starts = s.parens := by
  rw [starts, h]
  rfl

/-- A string starts after every bracket before it: no bracket stands in the word that may qualify
it. -/
theorem OpensAt.lt_stringStart {before : Text} {p : Nat} (h : OpensAt before p) :
    p < stringStart before (size before) := by
  obtain ⟨c, u, ⟨v, rfl⟩, rfl, hc⟩ := h
  have hmark : isMarkChar c = false := by rcases hc with rfl | rfl | rfl <;> rfl
  have hpos := c.utf8Size_pos
  unfold stringStart
  dsimp only
  split
  · -- the word lies in what comes after the bracket
    have hword : (v ++ c :: u).takeWhile isMarkChar = v.takeWhile isMarkChar :=
      NoWord.takeWhile_append (by simpa [NoWord] using hmark) v
    have hle : (v.takeWhile isMarkChar).length ≤ size v :=
      (List.takeWhile_prefix isMarkChar).length_le.trans (length_le_size v)
    rw [hword, Text.size_append, Text.size_cons]
    omega
  · rw [Text.size_append, Text.size_cons]
    omega

namespace Scanner

variable {before after : Text} {c : Char} {s t : Scanner}

theorem starts_withParens (hz : s.state.zone = .code) (parens : List Nat) :
    (s.withParens parens).state.starts = parens :=
  State.starts_of_code hz

/-- The offsets of what is open, innermost first, go down from the position: each bracket began after
those around it, and the string or comment after all brackets. -/
structure Ordered (s : Scanner) : Prop where
  sorted : s.state.starts.Pairwise (· > ·)
  below : ∀ n ∈ s.state.starts, n < s.offset

namespace Ordered

theorem init : Ordered {} := ⟨.nil, fun _ h => nomatch h⟩

/-- Going on, some of what was open may be closed. -/
theorem of_sublist (h : Ordered s) (hsub : t.state.starts.Sublist s.state.starts)
    (hle : s.offset ≤ t.offset) : Ordered t where
  sorted := h.sorted.sublist hsub
  below := fun n hn => Nat.lt_of_lt_of_le (h.below n (hsub.subset hn)) hle

/-- Going on, something may begin after all that is open. -/
theorem of_cons (h : Ordered s) {n : Nat} (hcons : t.state.starts = n :: s.state.starts)
    (hle : s.offset ≤ t.offset) (hn : n < t.offset) (hlast : ∀ m ∈ s.state.starts, m < n) :
    Ordered t where
  sorted := hcons ▸ List.pairwise_cons.2 ⟨hlast, h.sorted⟩
  below := by
    intro m hm
    rw [hcons] at hm
    rcases List.mem_cons.1 hm with rfl | hm
    · exact hn
    · exact Nat.lt_of_lt_of_le (h.below m hm) hle

/-- A move keeps the offsets in order. -/
theorem move (h : Ordered s) (hr : Reached before s) (hm : Move before c after s t) :
    Ordered t := by
  have hlt : s.offset < s.offset + c.utf8Size := Nat.lt_add_of_pos_right c.utf8Size_pos
  have hle := Nat.le_of_lt hlt
  have hparens : s.state.parens.Sublist s.state.starts := List.sublist_append_right _ _
  have hstring : s.state.zone = .code → ∀ n ∈ s.state.starts, n < stringStart before s.offset := by
    intro hz p hp
    rw [State.starts_of_code hz] at hp
    rw [hr.offset_eq]
    exact (hr.opens p hp).lt_stringStart
  have hquote := Nat.lt_of_le_of_lt (stringStart_le before s.offset) hlt
  cases hm with
  | skipped | escape | fence | inString | inComment | inCode =>
    exact h.of_sublist (List.Sublist.refl _) hle
  | closed | endString | endComment => exact h.of_sublist hparens hle
  | comment _ hz =>
    exact h.of_cons (n := s.offset) (by rw [State.starts_of_code hz]; rfl) hle hlt h.below
  | triple _ hz | single _ hz =>
    exact h.of_cons (n := stringStart before s.offset) (by rw [State.starts_of_code hz]; rfl) hle
      hquote (hstring hz)
  | opening _ hz =>
    refine h.of_cons (n := s.offset) ?_ hle hlt h.below
    rw [starts_withParens (s := s.moved c) hz, State.starts_of_code hz]
  | closing _ hz =>
    refine h.of_sublist ?_ hle
    rw [starts_withParens (s := s.moved c) hz]
    exact (List.tail_sublist _).trans hparens

/-- Reading keeps the offsets in order. -/
theorem read {p : Text} (h : Ordered s) (hr : Reached before s) (after : Text) :
    Ordered (s.read before p after) := by
  induction p generalizing before s with
  | nil => exact h
  | cons c cs ih => exact ih (h.move hr (move_step ..)) (hr.step c (cs ++ after))

theorem parens (h : Ordered s) : s.state.parens.Pairwise (· > ·) :=
  h.sorted.sublist (List.sublist_append_right _ _)

/-- A string or comment began before the position and after all brackets. -/
theorem zone (h : Ordered s) {n : Nat} (hz : s.state.zone.start? = some n) :
    n < s.offset ∧ ∀ p ∈ s.state.parens, p < n := by
  have hstarts : s.state.starts = n :: s.state.parens := by rw [State.starts, hz]; rfl
  refine ⟨h.below n (hstarts ▸ List.mem_cons_self), ?_⟩
  have hsorted := h.sorted
  rw [hstarts] at hsorted
  exact (List.pairwise_cons.1 hsorted).1

/-- The innermost of all that is open is what began last. -/
theorem innermostStart?_eq (h : Ordered s) : s.state.innermostStart? = s.state.starts.max? := by
  have hhead : s.state.innermostStart? = s.state.starts.head? := by
    rw [State.innermostStart?, State.starts]
    cases s.state.zone <;> rfl
  rw [hhead, List.max?_eq_head?]
  exact h.sorted.imp fun hlt => Nat.max_eq_left (Nat.le_of_lt hlt)

end Ordered

/-! ### Strings about to be closed -/

/-- Whether a string that is about to be closed has three quotes, some of which are still to be
read. -/
def Closing (s : Scanner) : Prop :=
  s.closePending = true → 0 < s.skip ∧ ∃ o, s.state.zone = .string o ∧ o.fence = .triple

theorem Closing.init : Closing {} := fun h => nomatch h

/-- A move keeps a string that is about to be closed. -/
theorem Closing.move (h : Closing s) (hm : Move before c after s t) : Closing t := by
  have hnot : s.skip = 0 → s.closePending ≠ true := fun hs hclose => by
    have := (h hclose).1
    omega
  cases hm with
  | skipped hs hclose =>
    intro hpending
    have hpending' : s.closePending = true := hpending
    refine ⟨?_, (h hpending').2⟩
    show 0 < s.skip - 1
    have : s.skip ≠ 1 := fun e => hclose ⟨e, hpending'⟩
    omega
  | closed => exact fun hpending => nomatch hpending
  | fence _ hz hfence => exact fun _ => ⟨Nat.two_pos, _, hz, hfence⟩
  | escape hs | endString hs | inString hs | endComment hs | inComment hs | comment hs | triple hs
  | single hs | opening hs | closing hs | inCode hs => exact fun hpending => absurd hpending (hnot hs)

theorem Closing.read {p : Text} (h : Closing s) (after : Text) :
    Closing (s.read before p after) := by
  induction p generalizing before s with
  | nil => exact h
  | cons c cs ih => exact ih (h.move (move_step ..))

/-! ### Brackets of code -/

/-- The brackets that are open after a move were open before it or begin there, in code. -/
theorem Move.mem_parens (hm : Move before c after s t) {p : Nat} (hp : p ∈ t.state.parens) :
    p ∈ s.state.parens ∨ p = s.offset ∧ IsOpening c ∧ s.state.zone = .code := by
  cases hm with
  | opening _ hz hc => exact (List.mem_cons.1 hp).imp_left (fun e => ⟨e, hc, hz⟩) |>.symm
  | closing => exact .inl (List.mem_of_mem_tail hp)
  | _ => exact .inl hp

end Scanner

/-- Whether an opening bracket of code stands at an offset of a text. -/
def OpensInCode (text : Text) (p : Nat) : Prop :=
  ∃ c, IsOpening c ∧ text.StandsAt 0 p [c] ∧ (classify text p).isCode = true

/-- Every bracket that is open after a reading is one of code. -/
theorem opensInCode_read {p x : Text} {q : Nat}
    (h : q ∈ (({} : Scanner).read [] p x).state.parens) : OpensInCode (p ++ x) q := by
  induction p using List.reverseRecOn generalizing x with
  | nil => cases h
  | append_singleton p c ih =>
    rw [Scanner.read_append, List.append_nil] at h
    rw [List.append_assoc]
    rcases (Scanner.move_step p.reverse c x _).mem_parens h with hold | ⟨hq, hc, hz⟩
    · exact ih hold
    · rw [Scanner.read_offset, Nat.zero_add] at hq
      refine ⟨c, hc, ⟨p, x, rfl, by rw [hq, Nat.zero_add]⟩, ?_⟩
      rw [hq, List.singleton_append, classify_before, State.isCode_iff]
      exact hz

/-- A bracket of code is one of the code characters of the text before any later offset. -/
theorem OpensInCode.exists_codeChar {text : Text} {p stop : Nat} (h : OpensInCode text p)
    (hp : p < stop) : ∃ k ∈ codeChars text 0 stop, k.offset = p ∧ IsOpening k.char := by
  obtain ⟨c, hc, hstands, hcode⟩ := h
  have hplain : ¬ IsQuote c ∧ c ≠ '#' := by rcases hc with rfl | rfl | rfl <;> decide
  let k : CodeChar := ⟨p, c, (min (classify text p).depth
    (classify text (p + c.utf8Size)).depth : Nat) - ((classify text 0).depth : Int)⟩
  have hk : k ∈ codeChars text 0 stop := mem_codeChars_iff.2 ⟨hstands,
    Nat.le_trans (text.floorBoundary_le 0) (Nat.zero_le p), hp, hcode,
    (isCode_classify_after hstands hcode).2 hplain, rfl⟩
  exact ⟨k, hk, rfl, hc⟩

/-! ### All scanners of a text -/

/-- The scanners of a text: the one at its beginning, and one more after each step. -/
def scanners (text : Text) : List Scanner := {} :: Scanner.trace [] text {}

namespace Scanner

theorem mem_cons_trace_iff {before text : Text} {s r : Scanner} :
    r ∈ s :: s.trace before text ↔ ∃ p x, text = p ++ x ∧ r = s.read before p x := by
  induction text generalizing before s with
  | nil =>
    rw [trace, List.mem_singleton]
    constructor
    · rintro rfl
      exact ⟨[], [], rfl, rfl⟩
    · rintro ⟨p, x, hp, rfl⟩
      rw [(List.append_eq_nil_iff.1 hp.symm).1, read_nil]
  | cons c cs ih =>
    rw [trace, List.mem_cons, ih]
    constructor
    · rintro (rfl | ⟨p, x, rfl, rfl⟩)
      · exact ⟨[], c :: cs, rfl, rfl⟩
      · exact ⟨c :: p, x, rfl, rfl⟩
    · rintro ⟨p, x, hp, rfl⟩
      cases p with
      | nil => exact .inl rfl
      | cons d p =>
        obtain ⟨rfl, rfl⟩ := List.cons_eq_cons.1 hp
        exact .inr ⟨p, x, rfl, rfl⟩

end Scanner

/-- The scanners of a text are those that have read a part of it from the beginning. -/
theorem mem_scanners_iff {text : Text} {s : Scanner} :
    s ∈ scanners text ↔ ∃ p x, text = p ++ x ∧ s = ({} : Scanner).read [] p x :=
  Scanner.mem_cons_trace_iff

theorem ofOffset_mem_scanners (text : Text) (n : Nat) : Scanner.ofOffset text n ∈ scanners text :=
  mem_scanners_iff.2 ⟨_, _, (text.takeBytes_append_dropBytes n).symm, Scanner.ofOffset_eq_read text n⟩

/-- What holds of every scanner of a text.  A position lies in a string or in a comment or in
neither.  The open brackets, outermost first, are brackets of code in the order in which they stand
before the position.  A string or comment that is open began before the position and after all of
these brackets, so the innermost of all that is open is what began last.  At most two characters are
skipped, and only in a string; one that is about to be closed has three quotes, not all of which have
been read. -/
structure Scanner.IsValid (text : Text) (s : Scanner) : Prop where
  exclusive : s.state.string? = none ∨ s.state.comment? = none
  sorted : s.state.parens.reverse.Pairwise (· < ·)
  brackets : ∀ p ∈ s.state.parens,
    p < s.offset ∧ ∃ k ∈ Lexical.codeChars text 0 s.offset, k.offset = p ∧ IsOpening k.char
  string : ∀ o, s.state.string? = some o →
    o.start < s.offset ∧ ∀ p ∈ s.state.parens, p < o.start
  comment : ∀ start, s.state.comment? = some start →
    start < s.offset ∧ ∀ p ∈ s.state.parens, p < start
  innermost : s.state.innermostStart? = s.state.starts.max?
  skip_le : s.skip ≤ 2
  skip : 0 < s.skip → s.state.inString = true
  closePending : s.closePending = true →
    0 < s.skip ∧ ∃ o, s.state.string? = some o ∧ o.fence = .triple

/-- What has read a part of a text from its beginning is valid. -/
theorem Scanner.isValid_read (p x : Text) :
    (({} : Scanner).read [] p x).IsValid (p ++ x) := by
  have hreach := Reached.init.read (p := p) x
  have hordered := Ordered.init.read (p := p) Reached.init x
  have hpending := Pending.read Reached.init (Pending.of_skip_eq_zero (s := {}) rfl (p ++ x))
  have hclosing : Closing (({} : Scanner).read [] p x) := Closing.init.read x
  have hopens := fun q => opensInCode_read (p := p) (x := x) (q := q)
  generalize ({} : Scanner).read [] p x = s at *
  exact {
    exclusive := by
      cases hz : s.state.zone <;> simp [State.string?, State.comment?, hz]
    sorted := List.pairwise_reverse.2 hordered.parens
    brackets := fun q hq => by
      have hlt := hordered.below q (List.mem_append_right _ hq)
      exact ⟨hlt, (hopens q hq).exists_codeChar hlt⟩
    string := fun o ho => hordered.zone (by rw [State.string?_eq_some.1 ho]; rfl)
    comment := fun start hs => hordered.zone (by rw [State.comment?_eq_some.1 hs]; rfl)
    innermost := hordered.innermostStart?_eq
    skip_le := hpending.1
    skip := fun hs => by
      obtain ⟨o, ho⟩ := hreach.skip hs
      rw [State.inString, State.string?_eq_some.2 ho, Option.isSome_some]
    closePending := fun hclose => by
      obtain ⟨hpos, o, ho, hfence⟩ := hclosing hclose
      exact ⟨hpos, o, State.string?_eq_some.2 ho, hfence⟩ }

theorem Scanner.isValid_of_mem_scanners {text : Text} {s : Scanner} (h : s ∈ scanners text) :
    s.IsValid text := by
  obtain ⟨p, x, rfl, rfl⟩ := mem_scanners_iff.1 h
  exact isValid_read p x

end Offside.Lexical
