import Offside.Proofs.Lexical.Positions
import Offside.Proofs.Lexical.Shape

/-!
# Code characters as a filter

The code characters of a range are found by a scanner that looks at its own state before and after
each character.  They are the characters before and after which the text is in code: a scanner that
has an escape or a fence half read is always in a string, so no other part of its state counts.

* `Reached.isCode_eq`: whether a scanner stands in code is a matter of its zone alone;
* `Scanner.mem_codeChars_iff`: the code characters that a scanner finds;
* `mem_codeChars_iff`: those of a range, by the states at their ends;
* `Scanner.isCode_step_of_code`, `depth_step_of_isOpening`, `depth_step_of_isClosing`: what a
  character of code does to the state;
* `code_chars_are_exactly_code`.
-/

namespace Offside.Lexical

open Text (size)

/-- The closing brackets. -/
def IsClosing (c : Char) : Prop := c = ')' ∨ c = ']' ∨ c = '}'

instance (c : Char) : Decidable (IsClosing c) := inferInstanceAs (Decidable (_ ∨ _))

theorem State.isCode_iff {s : State} : s.isCode = true ↔ s.zone = .code := beq_iff_eq

/-- No escape or fence is half read in code. -/
theorem Reached.skip_eq_zero {before : Text} {s : Scanner} (h : Reached before s)
    (hcode : s.state.isCode = true) : s.skip = 0 := by
  by_contra hskip
  obtain ⟨o, ho⟩ := h.skip (Nat.pos_of_ne_zero hskip)
  rw [State.isCode_iff, ho] at hcode
  cases hcode

/-- A scanner stands in code if the text is in code there. -/
theorem Reached.isCode_eq {before : Text} {s : Scanner} (h : Reached before s) :
    s.isCode = s.state.isCode := by
  cases hcode : s.state.isCode with
  | false => rw [Scanner.isCode, hcode, Bool.and_false]
  | true => rw [Scanner.isCode, Scanner.atBoundary, hcode, h.skip_eq_zero hcode]; rfl

namespace Scanner

variable {s : Scanner} {before after : Text} {stop base : Nat}

/-! ### What a scanner finds -/

/-- The code character that a scanner finds in `c`, if it is one. -/
def codeCharAt (base : Nat) (before : Text) (c : Char) (after : Text) (s : Scanner) : CodeChar :=
  ⟨s.offset, c,
    (min s.state.depth (s.step before c after).state.depth : Nat) - (base : Int)⟩

/-- Whether a scanner is in code before and after `c`. -/
def InCode (before : Text) (c : Char) (after : Text) (s : Scanner) : Prop :=
  s.state.isCode = true ∧ (s.step before c after).state.isCode = true

/-- The first character is found if it lies in the range and is code. -/
theorem mem_codeChars_cons {c : Char} {k : CodeChar} (h : Reached before s) :
    k ∈ s.codeChars stop base before (c :: after) ↔
      s.offset < stop ∧
        (InCode before c after s ∧ k = s.codeCharAt base before c after ∨
          k ∈ (s.step before c after).codeChars stop base (c :: before) after) := by
  rw [codeChars, h.isCode_eq]
  by_cases hstop : s.offset < stop
  · by_cases hcode : InCode before c after s
    · simp [hstop, hcode, hcode.1, hcode.2, codeCharAt]
    · have hboth : (s.state.isCode && (s.step before c after).state.isCode) = false := by
        simpa [InCode] using hcode
      simp [hstop, hcode, hboth]
  · simp [hstop]

/-- A scanner finds the characters before its end at which it is in code. -/
theorem mem_codeChars_iff {k : CodeChar} (h : Reached before s) :
    k ∈ s.codeChars stop base before after ↔
      ∃ u v, after = u ++ k.char :: v ∧ k.offset < stop ∧
        InCode (u.reverse ++ before) k.char v (s.read before u (k.char :: v)) ∧
        k = (s.read before u (k.char :: v)).codeCharAt base (u.reverse ++ before) k.char v := by
  induction after generalizing before s with
  | nil => simp [codeChars]
  | cons c cs ih =>
    rw [mem_codeChars_cons h, ih (h.step c cs)]
    constructor
    · rintro ⟨hstop, ⟨hcode, rfl⟩ | ⟨u, v, rfl, hk, hcode, heq⟩⟩
      · exact ⟨[], cs, rfl, hstop, hcode, rfl⟩
      · refine ⟨c :: u, v, rfl, hk, ?_, ?_⟩
        · simpa [read_cons] using hcode
        · simpa [read_cons] using heq
    · rintro ⟨u, v, hafter, hk, hcode, heq⟩
      have hoffset : k.offset = s.offset + size u := by
        rw [heq, codeCharAt, read_offset]
      refine ⟨by omega, ?_⟩
      cases u with
      | nil =>
        obtain ⟨rfl, rfl⟩ := List.cons_eq_cons.1 hafter
        exact .inl ⟨hcode, heq⟩
      | cons d u =>
        obtain ⟨rfl, rfl⟩ := List.cons_eq_cons.1 hafter
        refine .inr ⟨u, v, rfl, hk, ?_, ?_⟩
        · simpa [read_cons] using hcode
        · simpa [read_cons] using heq

end Scanner

/-! ### Code characters of a text -/

section Place

variable (w : Text) (c : Char) (v : Text)

/-- The state before a character of a text. -/
theorem classify_before :
    classify (w ++ c :: v) (size w) = (({} : Scanner).read [] w (c :: v)).state := by
  rw [classify, Scanner.ofOffset_size]

/-- The state after a character of a text is one step further on. -/
theorem classify_after : classify (w ++ c :: v) (size w + c.utf8Size) =
    ((({} : Scanner).read [] w (c :: v)).step w.reverse c v).state := by
  have hjoin : w ++ c :: v = (w ++ [c]) ++ v := by simp
  have hsize : size w + c.utf8Size = size (w ++ [c]) := by simp
  rw [hjoin, hsize, classify, Scanner.ofOffset_size, Scanner.read_append, List.append_nil]
  rfl

theorem codeCharAt_eq (base : Nat) :
    (({} : Scanner).read [] w (c :: v)).codeCharAt base w.reverse c v =
      ⟨size w, c, (min (classify (w ++ c :: v) (size w)).depth
        (classify (w ++ c :: v) (size w + c.utf8Size)).depth : Nat) - (base : Int)⟩ := by
  rw [Scanner.codeCharAt, Scanner.read_offset, Nat.zero_add, classify_before, classify_after]

end Place

/-- The code characters of a range, found from the end of what stands before it. -/
theorem codeChars_eq_read (text : Text) (start stop : Nat) :
    codeChars text start stop =
      (({} : Scanner).read [] (text.takeBytes start) (text.dropBytes start)).codeChars stop
        (classify text start).depth (text.takeBytes start).reverse (text.dropBytes start) := by
  have hcut := text.takeBytes_append_dropBytes start
  have hbefore := Text.takeBytes_size (text.takeBytes start) (text.dropBytes start)
  have hafter := Text.dropBytes_size (text.takeBytes start) (text.dropBytes start)
  rw [hcut] at hbefore hafter
  rw [codeChars, Scanner.codeCharsOf, Scanner.ofOffset_offset, Text.floorBoundary, hbefore, hafter,
    classify, Scanner.ofOffset_eq_read]

/-- A character that stands in a text after a prefix stands in the rest. -/
theorem exists_append_of_standsAt {p q : Text} {c : Char} {offset : Nat}
    (h : Text.StandsAt (p ++ q) 0 offset [c]) (hle : size p ≤ offset) :
    ∃ u v, q = u ++ c :: v ∧ offset = size (p ++ u) := by
  obtain ⟨w, v, htext, hw⟩ := h
  rw [Nat.zero_add] at hw
  subst hw
  have hp : p = w.takeBytes (size p) := by
    rw [← Text.takeBytes_append_of_le hle ([c] ++ v), ← htext, Text.takeBytes_size]
  have hq : q = w.dropBytes (size p) ++ ([c] ++ v) := by
    rw [← Text.dropBytes_append_of_le hle, ← htext, Text.dropBytes_size]
  have hw := Text.takeBytes_append_dropBytes (size p) w
  rw [← hp] at hw
  exact ⟨w.dropBytes (size p), v, hq, by rw [hw]⟩

/-- A character is found in a range if it stands there and the text is in code before and after
it. -/
theorem mem_codeChars_iff {text : Text} {start stop : Nat} {k : CodeChar} :
    k ∈ codeChars text start stop ↔
      text.StandsAt 0 k.offset [k.char] ∧ text.floorBoundary start ≤ k.offset ∧ k.offset < stop ∧
      (classify text k.offset).isCode = true ∧
      (classify text (k.offset + k.char.utf8Size)).isCode = true ∧
      k.depth = (min (classify text k.offset).depth
        (classify text (k.offset + k.char.utf8Size)).depth : Nat) -
          ((classify text start).depth : Int) := by
  have hreach := Reached.init.read (p := text.takeBytes start) (text.dropBytes start)
  have hcut := text.takeBytes_append_dropBytes start
  have hfloor : text.floorBoundary start = size (text.takeBytes start) := rfl
  rw [List.append_nil] at hreach
  rw [codeChars_eq_read, Scanner.mem_codeChars_iff hreach, hfloor]
  generalize (classify text start).depth = base
  generalize text.takeBytes start = p at hcut
  generalize text.dropBytes start = q at hcut
  -- both sides speak of the text cut at the character
  have hread : ∀ u v, (({} : Scanner).read [] p (u ++ k.char :: v)).read p.reverse u (k.char :: v) =
      ({} : Scanner).read [] (p ++ u) (k.char :: v) := by
    intro u v
    rw [Scanner.read_append, List.append_nil]
  constructor
  · rintro ⟨u, v, rfl, hstop, hcode, hk⟩
    rw [hread, ← List.reverse_append, codeCharAt_eq] at hk
    rw [hread, ← List.reverse_append, Scanner.InCode, ← classify_before, ← classify_after] at hcode
    obtain rfl : (p ++ u) ++ k.char :: v = text := by rw [← hcut, List.append_assoc]
    obtain hoffset : k.offset = size (p ++ u) := congrArg CodeChar.offset hk
    rw [← hoffset] at hcode hk
    refine ⟨⟨p ++ u, v, rfl, by rw [Nat.zero_add, hoffset]⟩, ?_, hstop, hcode.1, hcode.2,
      congrArg CodeChar.depth hk⟩
    rw [hoffset, Text.size_append]
    omega
  · rintro ⟨hstands, hle, hstop, hbefore, hafter, hdepth⟩
    rw [← hcut] at hstands
    obtain ⟨u, v, rfl, hoffset⟩ := exists_append_of_standsAt hstands hle
    obtain rfl : (p ++ u) ++ k.char :: v = text := by rw [← hcut, List.append_assoc]
    refine ⟨u, v, rfl, hstop, ?_⟩
    rw [hread, ← List.reverse_append, codeCharAt_eq, Scanner.InCode, ← classify_before,
      ← classify_after, ← hoffset, ← hdepth]
    exact ⟨⟨hbefore, hafter⟩, rfl⟩

/-! ### Quotes, comments and brackets -/

namespace Scanner

variable {s : Scanner} {before after : Text} {c : Char}

/-- Code ends at a quote and at the beginning of a comment, and nowhere else. -/
theorem isCode_step_of_code (hs : s.skip = 0) (hz : s.state.zone = .code) :
    (s.step before c after).state.isCode = true ↔ ¬ IsQuote c ∧ c ≠ '#' := by
  rw [State.isCode_iff, step_of_code hs hz, stepCode]
  by_cases hcomment : c = '#'
  · simp [hcomment]
  · by_cases hquote : IsQuote c
    · rw [if_neg hcomment, if_pos (show c = '\'' ∨ c = '"' from hquote)]
      split <;> simp [hquote]
    · rw [if_neg hcomment, if_neg (show ¬ (c = '\'' ∨ c = '"') from hquote)]
      repeat' split
      all_goals simp [hz, hquote, hcomment]

/-- An opening bracket of code is one more that is open. -/
theorem depth_step_of_isOpening (hs : s.skip = 0) (hz : s.state.zone = .code) (hc : IsOpening c) :
    (s.step before c after).state.depth = s.state.depth + 1 := by
  rw [step_of_code hs hz]
  rcases hc with rfl | rfl | rfl <;> rfl

/-- A closing bracket of code closes one, if any is open. -/
theorem depth_step_of_isClosing (hs : s.skip = 0) (hz : s.state.zone = .code) (hc : IsClosing c) :
    (s.step before c after).state.depth = s.state.depth - 1 := by
  have htail : (s.step before c after).state.parens = s.state.parens.tail := by
    rw [step_of_code hs hz]
    rcases hc with rfl | rfl | rfl <;> rfl
  rw [State.depth, htail, List.length_tail]
  rfl

end Scanner

section Place

variable {text : Text} {offset : Nat} {c : Char}

/-- The scanner before a character of code, which stands between tokens, and the states before and
after the character. -/
theorem exists_scanner_of_isCode (hstands : text.StandsAt 0 offset [c])
    (h : (classify text offset).isCode = true) :
    ∃ before after, ∃ s : Scanner, Reached before s ∧ s.skip = 0 ∧ s.state.zone = .code ∧
      classify text offset = s.state ∧
      classify text (offset + c.utf8Size) = (s.step before c after).state := by
  obtain ⟨w, v, rfl, hw⟩ := hstands
  rw [Nat.zero_add] at hw
  subst hw
  have hreach := Reached.init.read (p := w) (c :: v)
  rw [List.append_nil] at hreach
  have hbefore := classify_before w c v
  have hcode : (({} : Scanner).read [] w (c :: v)).state.isCode = true := hbefore ▸ h
  exact ⟨w.reverse, v, _, hreach, hreach.skip_eq_zero hcode, State.isCode_iff.1 hcode, hbefore,
    classify_after w c v⟩

theorem isCode_classify_after (hstands : text.StandsAt 0 offset [c])
    (h : (classify text offset).isCode = true) :
    (classify text (offset + c.utf8Size)).isCode = true ↔ ¬ IsQuote c ∧ c ≠ '#' := by
  obtain ⟨before, after, s, -, hskip, hzone, -, hafter⟩ := exists_scanner_of_isCode hstands h
  rw [hafter, Scanner.isCode_step_of_code hskip hzone]

end Place

section Found

variable {text : Text} {start stop : Nat} {k : CodeChar}

/-- Quotes are not found, and neither is the beginning of a comment. -/
theorem not_isQuote_of_mem_codeChars (h : k ∈ codeChars text start stop) :
    ¬ IsQuote k.char ∧ k.char ≠ '#' := by
  obtain ⟨hstands, -, -, hbefore, hafter, -⟩ := mem_codeChars_iff.1 h
  exact (isCode_classify_after hstands hbefore).1 hafter

/-- The depth outside an opening bracket is the one before it. -/
theorem depth_of_isOpening (h : k ∈ codeChars text start stop) (hc : IsOpening k.char) :
    k.depth = (classify text k.offset).depth - ((classify text start).depth : Int) := by
  obtain ⟨hstands, -, -, hbefore, -, hdepth⟩ := mem_codeChars_iff.1 h
  obtain ⟨before, after, s, -, hskip, hzone, hstate, hstate'⟩ :=
    exists_scanner_of_isCode hstands hbefore
  rw [hdepth, hstate', Scanner.depth_step_of_isOpening hskip hzone hc, hstate,
    Nat.min_eq_left (Nat.le_succ _)]

/-- The depth outside a closing bracket is the one after it. -/
theorem depth_of_isClosing (h : k ∈ codeChars text start stop) (hc : IsClosing k.char) :
    k.depth = (classify text (k.offset + k.char.utf8Size)).depth -
      ((classify text start).depth : Int) := by
  obtain ⟨hstands, -, -, hbefore, -, hdepth⟩ := mem_codeChars_iff.1 h
  obtain ⟨before, after, s, -, hskip, hzone, hstate, hstate'⟩ :=
    exists_scanner_of_isCode hstands hbefore
  rw [hdepth, hstate', Scanner.depth_step_of_isClosing hskip hzone hc, hstate,
    Nat.min_eq_right (Nat.sub_le _ _)]

/-- Code characters are found from left to right. -/
theorem pairwise_codeChars (text : Text) (start stop : Nat) :
    (codeChars text start stop).Pairwise fun k l => k.offset < l.offset := by
  rw [codeChars, Scanner.codeCharsOf]
  refine (Scanner.pairwise_codeChars _ _ _ _ _).imp fun {k l} hle => ?_
  have := k.char.utf8Size_pos
  omega

end Found

/-- An offset and the boundary that it is rounded down to have the same state. -/
theorem classify_floorBoundary (text : Text) (offset : Nat) :
    classify text (text.floorBoundary offset) = classify text offset := by
  rw [classify, classify, Scanner.ofOffset, Scanner.ofOffset,
    show text.floorBoundary (text.floorBoundary offset) = _ from
      Text.isBoundary_floorBoundary text offset]

/-- **The code characters of a range are the characters in code.**  They are found from left to right
and once each.  A character is found exactly if it stands between the start of the range, rounded
down to a boundary, and its end, and the text is outside strings and comments both before and after
it; its depth is the lower one of those before and after it, counted from the depth at the start.  So
no quote and no `#` is found, and a bracket that is found has the depth outside of it. -/
theorem code_chars_are_exactly_code (text : Text) (start stop : Nat) :
    let base : Int := (classify text (text.floorBoundary start)).depth
    (codeChars text start stop).Pairwise (fun k l => k.offset < l.offset) ∧
    (∀ k : CodeChar, k ∈ codeChars text start stop ↔
      text.StandsAt 0 k.offset [k.char] ∧ text.floorBoundary start ≤ k.offset ∧
      k.offset < min stop text.size ∧ (classify text k.offset).isCode = true ∧
      (classify text (k.offset + k.char.utf8Size)).isCode = true ∧
      k.depth = (min (classify text k.offset).depth
        (classify text (k.offset + k.char.utf8Size)).depth : Nat) - base) ∧
    (∀ k ∈ codeChars text start stop, ¬ IsQuote k.char ∧ k.char ≠ '#' ∧
      (IsOpening k.char → k.depth = (classify text k.offset).depth - base) ∧
      (IsClosing k.char →
        k.depth = (classify text (k.offset + k.char.utf8Size)).depth - base)) := by
  intro base
  have hbase : base = ((classify text start).depth : Int) := by
    rw [← classify_floorBoundary text start]
  rw [hbase]
  refine ⟨pairwise_codeChars text start stop, fun k => ?_, fun k hk => ?_⟩
  · rw [mem_codeChars_iff, Nat.lt_min]
    constructor
    · rintro ⟨hstands, hle, hstop, hrest⟩
      have hsize : k.offset < text.size := by
        obtain ⟨u, x, rfl, hend⟩ := hstands.exists_append
        have hpos := k.char.utf8Size_pos
        simp only [Text.size_append, Text.size_cons, Text.size_nil] at *
        omega
      exact ⟨hstands, hle, ⟨hstop, hsize⟩, hrest⟩
    · rintro ⟨hstands, hle, ⟨hstop, -⟩, hrest⟩
      exact ⟨hstands, hle, hstop, hrest⟩
  · obtain ⟨hquote, hcomment⟩ := not_isQuote_of_mem_codeChars hk
    exact ⟨hquote, hcomment, depth_of_isOpening hk, depth_of_isClosing hk⟩

/-- A range that starts within the fence of a string, with a closing bracket that closes nothing
before it and one bracket more closed in it than opened. -/
theorem code_chars_are_exactly_code_from_fence :
    let text : Text := ")(f'''a(\"'''[é], '#'))# x".toList
    let closer : CodeChar := ⟨22, ')', -1⟩
    classify text 5 = ⟨.string ⟨'\'', .triple, 2⟩, [1]⟩ ∧
    codeChars text 5 30 = [⟨12, '[', 0⟩, ⟨13, 'é', 1⟩, ⟨15, ']', 0⟩, ⟨16, ',', 0⟩, ⟨17, ' ', 0⟩,
      ⟨21, ')', -1⟩, closer] ∧
    closer.depth =
      (classify text 23).depth - ((classify text (text.floorBoundary 5)).depth : Int) := by
  intro text closer
  have hfound : closer ∈ codeChars text 5 30 := by decide +kernel
  exact ⟨by decide +kernel, by decide +kernel,
    ((code_chars_are_exactly_code text 5 30).2.2 closer hfound).2.2.2 (by decide)⟩

end Offside.Lexical
