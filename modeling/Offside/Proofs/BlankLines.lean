import Offside.Proofs.Outline
import Offside.Proofs.Agreement.Status

/-!
# Blank lines and comments

The first line of a statement starts in code with no bracket open.  If it is blank or holds only a
comment, the scanner leaves it in the same state, and it does not continue onto the next line.

* `Document.lineStartState_of_not_continues`: the state at the start of a statement;
* `Scanner.read_whiteSpace`, `read_comment`: what the scanner does on such lines;
* `Document.not_continues_of_isBlankOrComment`: they do not continue.
-/

namespace Offside

open Lexical
open Text (size)

namespace Lexical.Scanner

variable {s : Scanner} (before : Text)

/-! ### Reading white space and comments -/

theorem step_of_isWhiteSpace (hz : s.state.zone = .code) (hs : s.skip = 0) {c : Char}
    (hc : isWhiteSpace c = true) (after : Text) : s.step before c after = s.moved c := by
  have hne : ∀ k, isWhiteSpace k = false → c ≠ k := by
    rintro k hk rfl
    rw [hk] at hc
    cases hc
  rw [step_of_code hs hz, stepCode, if_neg (hne '#' rfl),
    if_neg (not_or.2 ⟨hne '\'' rfl, hne '"' rfl⟩),
    if_neg (not_or.2 ⟨hne '(' rfl, not_or.2 ⟨hne '[' rfl, hne '{' rfl⟩⟩),
    if_neg (not_or.2 ⟨hne ')' rfl, not_or.2 ⟨hne ']' rfl, hne '}' rfl⟩⟩)]

/-- Reading white space in code only moves the scanner. -/
theorem read_whiteSpace {p : Text} (hz : s.state.zone = .code) (hs : s.skip = 0)
    (hp : ∀ c ∈ p, isWhiteSpace c = true) (after : Text) :
    s.read before p after = { s with offset := s.offset + size p } := by
  induction p generalizing before s with
  | nil => rfl
  | cons c cs ih =>
    have hstep := step_of_isWhiteSpace before hz hs (hp c List.mem_cons_self) (cs ++ after)
    have htail := ih (c :: before) (s := s.moved c) hz hs fun k hk =>
      hp k (List.mem_cons_of_mem c hk)
    rw [read_cons, hstep, htail]
    simp [moved, Nat.add_assoc]

/-- Reading on in a comment only moves the scanner. -/
theorem read_comment {p : Text} {n : Nat} (hz : s.state.zone = .comment n) (hs : s.skip = 0)
    (hp : '\n' ∉ p) (after : Text) :
    s.read before p after = { s with offset := s.offset + size p } := by
  induction p generalizing before s with
  | nil => rfl
  | cons c cs ih =>
    have hne : c ≠ '\n' := fun e => hp (e ▸ List.mem_cons_self)
    have htail := ih (c :: before) (s := s.moved c) hz hs fun hm =>
      hp (List.mem_cons_of_mem c hm)
    rw [read_cons, step_of_comment hs hz, if_neg hne, htail]
    simp [moved, Nat.add_assoc]

/-- Past white space and the `#` of a comment the scanner stays in the comment. -/
theorem read_hash {p q : Text} (hz : s.state.zone = .code) (hs : s.skip = 0)
    (hp : ∀ c ∈ p, isWhiteSpace c = true) (hq : '\n' ∉ q) (after : Text) :
    (s.read before (p ++ '#' :: q) after).state = ⟨.comment (s.offset + size p), s.state.parens⟩ ∧
      (s.read before (p ++ '#' :: q) after).skip = 0 := by
  have hstep : ({ s with offset := s.offset + size p } : Scanner).step (p.reverse ++ before) '#'
      (q ++ after) =
        (({ s with offset := s.offset + size p } : Scanner).moved '#').enter
          (.comment (s.offset + size p)) := by
    rw [step_of_code (s := { s with offset := s.offset + size p }) hs hz, stepCode, if_pos rfl]
  have hcomment := read_comment ('#' :: (p.reverse ++ before))
    (s := (({ s with offset := s.offset + size p } : Scanner).moved '#').enter
      (.comment (s.offset + size p))) rfl hs hq after
  rw [read_append, read_whiteSpace _ hz hs hp, read_cons, hstep, hcomment]
  exact ⟨rfl, hs⟩

end Lexical.Scanner

/-! ### The start of a statement -/

namespace Document

variable {d : Document} {m : Nat}

/-- No comment is open at the start of a line. -/
theorem zone_lineStart_ne_comment (d : Document) (m n : Nat) :
    (d.lineStartState m).zone ≠ .comment n := by
  obtain ⟨above, row, below, h, hline⟩ := Buffer.exists_rows_clampLine d.buffer m
  rw [lineStartState_clampLine, hline, lineStartState_of_rows h]
  rcases Text.endsLine_flatten (Text.isFullRow_of_rows h) with hnil | ⟨q, hq⟩
  · rw [hnil]
    simp
  · rw [hq, Scanner.read_append]
    exact zone_of_newline (Reached.init.read _) n

/-- Nothing is open at the start of a line that does not continue another one. -/
theorem lineStartState_of_not_continues (hm : 1 ≤ m) (hle : m ≤ d.lineCount)
    (h : m = 1 ∨ d.continues (m - 1) = false) : d.lineStartState m = {} := by
  by_cases hone : m = 1
  · subst hone
    obtain ⟨above, row, below, hrows, hlength⟩ := Buffer.exists_rows (b := d.buffer) hm hle
    obtain rfl : above = [] := List.length_eq_zero_iff.1 (by omega)
    have hfirst := lineStartState_of_rows (show d.text.rows = [] ++ row :: below from hrows)
    rw [List.flatten_nil, Scanner.read_nil] at hfirst
    exact hfirst
  · obtain ⟨k, rfl⟩ : ∃ k, m = k + 1 := ⟨m - 1, by omega⟩
    rw [Nat.add_sub_cancel] at h
    obtain ⟨hparen, hstring, -⟩ :=
      (continues_eq_false_iff (d := d) (by omega) hle).1 (h.resolve_left hone)
    have hzone : (d.lineStartState (k + 1)).zone = .code := by
      cases hz : (d.lineStartState (k + 1)).zone with
      | code => rfl
      | string o => simp [State.string?, hz] at hstring
      | comment n => exact absurd hz (d.zone_lineStart_ne_comment _ n)
    have hparens : (d.lineStartState (k + 1)).parens = [] := by
      simpa [State.innermostParen?] using hparen
    cases hstate : d.lineStartState (k + 1) with
    | mk zone parens =>
      rw [hstate] at hzone hparens
      rw [show zone = .code from hzone, show parens = [] from hparens]

/-! ### Blank lines and comments -/

/-- What a blank line or a comment is made of. -/
theorem body_of_isBlankOrComment (h : d.isBlankOrComment m = true) :
    (∀ c ∈ d.buffer.lineText m, isWhiteSpace c = true) ∨
      ∃ p q, d.buffer.lineText m = p ++ '#' :: q ∧ ∀ c ∈ p, isWhiteSpace c = true := by
  have hsplit : d.buffer.lineText m =
      (d.buffer.lineText m).takeWhile isWhiteSpace ++ (d.buffer.lineText m).trimStart :=
    List.takeWhile_append_dropWhile.symm
  have hspace : ∀ c ∈ (d.buffer.lineText m).takeWhile isWhiteSpace, isWhiteSpace c = true :=
    fun c hc => List.mem_takeWhile_imp hc
  rw [isBlankOrComment, Bool.and_eq_true] at h
  cases htrim : (d.buffer.lineText m).trimStart with
  | nil =>
    rw [htrim, List.append_nil] at hsplit
    exact .inl (hsplit ▸ hspace)
  | cons c q =>
    have hc : c = '#' := by simpa [htrim] using h.1
    subst hc
    rw [htrim] at hsplit
    exact .inr ⟨_, q, hsplit, hspace⟩

end Document

namespace Lexical.Scanner

variable {s : Scanner} (before : Text)

/-- A line of white space, or of white space and a comment, opens nothing. -/
theorem state_after_blank {body : Text} (hz : s.state.zone = .code) (hs : s.skip = 0)
    (hn : '\n' ∉ body) (hbody : (∀ c ∈ body, isWhiteSpace c = true) ∨
      ∃ p q, body = p ++ '#' :: q ∧ ∀ c ∈ p, isWhiteSpace c = true) (ending : Ending) (after : Text) :
    (s.read before (body ++ ending.text) after).state.parens = s.state.parens ∧
      (s.read before (body ++ ending.text) after).state.inString = false := by
  rcases hbody with hspace | ⟨p, q, rfl, hp⟩
  · have hall : ∀ c ∈ body ++ ending.text, isWhiteSpace c = true := by
      intro c hc
      rcases List.mem_append.1 hc with hc | hc
      · exact hspace c hc
      · exact ending.isWhiteSpace_text c hc
    rw [read_whiteSpace _ hz hs hall]
    exact ⟨rfl, by simp [State.inString, State.string?, hz]⟩
  · have hq : '\n' ∉ q := fun hm => hn (by simp [hm])
    -- a line feed closes the comment, and nothing else does
    have hclosed : ∀ u : Text, '\n' ∉ u →
        (s.read before (p ++ '#' :: (q ++ u) ++ ['\n']) after).state.parens = s.state.parens ∧
          (s.read before (p ++ '#' :: (q ++ u) ++ ['\n']) after).state.inString = false := by
      intro u hu
      obtain ⟨hstate, hskip⟩ := read_hash before (q := q ++ u) hz hs hp
        (by simp [hq, hu]) (['\n'] ++ after)
      have hzone : (s.read before (p ++ '#' :: (q ++ u)) (['\n'] ++ after)).state.zone =
          .comment (s.offset + size p) := by rw [hstate]
      rw [read_append before (p ++ '#' :: (q ++ u)), read_cons, step_of_comment hskip hzone,
        if_pos rfl, read_nil, enter_parens, moved_state, hstate]
      exact ⟨rfl, rfl⟩
    cases ending with
    | none =>
      obtain ⟨hstate, -⟩ := read_hash before hz hs hp hq after
      rw [Ending.text, List.append_nil, hstate]
      exact ⟨rfl, rfl⟩
    | lf => simpa [Ending.text] using hclosed [] (by simp)
    | crlf => simpa [Ending.text] using hclosed ['\r'] (by decide)

end Lexical.Scanner

namespace Document

variable {d : Document} {m : Nat}

/-- A blank line or a comment that starts a statement ends in no backslash that stands in code. -/
theorem endsBackslash_of_isBlankOrComment {above below : List Text} {row : Text}
    (h : d.text.rows = above ++ row :: below) (hstart : d.lineStartState (above.length + 1) = {})
    (hblank : d.isBlankOrComment (above.length + 1) = true) :
    d.endsBackslash (above.length + 1) = false := by
  have hbody := body_of_isBlankOrComment hblank
  have hn : '\n' ∉ (Line.ofRow (size above.flatten) row).body :=
    Line.not_mem_newline_body ((Text.row_cases_of_rows h).imp And.right And.right) _
  have hrow := Line.ofRow_row (size above.flatten) row
  rw [Line.row] at hrow
  rw [lineStartState_of_rows h] at hstart
  rw [Buffer.lineText, Buffer.line_of_rows h] at hbody
  rw [endsBackslash, Buffer.lineText, Buffer.lineEnd, Buffer.line_of_rows h, Line.stop,
    Line.ofRow_start]
  generalize (Line.ofRow (size above.flatten) row).body = body at *
  generalize (Line.ofRow (size above.flatten) row).ending.text = ending at *
  by_cases hodd : (body.reverse.takeWhile (· == '\\')).length % 2 = 1
  · obtain ⟨u, rfl⟩ := Text.exists_backslash hodd
    rcases hbody with hspace | ⟨p, q, hq, hp⟩
    · exact absurd (hspace '\\' (by simp)) (by decide)
    · -- the backslash stands in the comment
      obtain ⟨q', rfl, rfl⟩ : ∃ q', q = q' ++ ['\\'] ∧ u = p ++ '#' :: q' := by
        rcases List.eq_nil_or_concat q with rfl | ⟨q', c, rfl⟩
        · exact absurd (List.append_inj' hq rfl).2 (by decide)
        · rw [List.concat_eq_append, ← List.cons_append, ← List.append_assoc] at hq
          obtain ⟨hu, hc⟩ := List.append_inj' hq rfl
          exact ⟨q', by rw [List.concat_eq_append, hc], hu⟩
      have h' : d.text.rows = above ++ ((p ++ '#' :: q') ++ ('\\' :: ending)) :: below := by
        rw [h, ← hrow]
        simp
      have hstop : size above.flatten + size (p ++ '#' :: q' ++ ['\\']) - 1 =
          size above.flatten + size (p ++ '#' :: q') := by
        have hone : size ['\\'] = 1 := rfl
        rw [Text.size_append _ ['\\'], hone]
        omega
      have hq' : '\n' ∉ q' := fun hm => hn (by simp [hm])
      rw [show row ++ below.flatten = p ++ '#' :: q' ++ ('\\' :: ending ++ below.flatten) by
        simp [← hrow]] at hstart
      obtain ⟨hstate, -⟩ := Scanner.read_hash (above.flatten.reverse ++ [])
        (congrArg State.zone hstart) (skip_read_above h _) hp hq' ('\\' :: ending ++ below.flatten)
      rw [hstop, stateAt_of_rows h', Scanner.read_append [] above.flatten, hstate]
      simp [State.isCode]
  · have hfalse : ((body.reverse.takeWhile (· == '\\')).length % 2 == 1) = false := by
      simpa using hodd
    rw [hfalse, Bool.and_false, Bool.false_and]

/-- Blank lines and comments that start a statement do not continue. -/
theorem not_continues_of_isBlankOrComment (hm : 1 ≤ m) (hle : m ≤ d.lineCount)
    (h : m = 1 ∨ d.continues (m - 1) = false) (hblank : d.isBlankOrComment m = true) :
    d.continues m = false := by
  have hstart := lineStartState_of_not_continues hm hle h
  have hbody := body_of_isBlankOrComment hblank
  obtain ⟨above, row, below, hrows, rfl⟩ := Buffer.exists_rows (b := d.buffer) hm hle
  have hback := endsBackslash_of_isBlankOrComment hrows hstart hblank
  have hn : '\n' ∉ (Line.ofRow (size above.flatten) row).body :=
    Line.not_mem_newline_body ((Text.row_cases_of_rows hrows).imp And.right And.right) _
  have hrow : (Line.ofRow (size above.flatten) row).body ++
      (Line.ofRow (size above.flatten) row).ending.text = row := Line.ofRow_row _ row
  rw [Buffer.lineText, Buffer.line_of_rows hrows] at hbody
  rw [lineStartState_of_rows hrows] at hstart
  have hrows' : d.text.rows = above ++ (row ++ []) :: below := by rwa [List.append_nil]
  -- the state after the line is the one at its start, but for a comment that is still open
  have hafter := Scanner.state_after_blank (above.flatten.reverse ++ [])
    (congrArg State.zone hstart) (skip_read_above hrows _) hn hbody
    (Line.ofRow (size above.flatten) row).ending below.flatten
  rw [hrow, hstart, ← Scanner.read_append, ← List.nil_append below.flatten,
    ← stateAt_of_rows hrows', ← Buffer.nextLineStart_of_rows hrows] at hafter
  obtain ⟨hparens, hstring⟩ := hafter
  have hdepth : ¬ 0 < (d.stateAt (d.buffer.nextLineStart (above.length + 1))).depth := by
    rw [State.depth, hparens]
    decide
  rw [continues, continuation]
  dsimp only
  rw [if_neg hdepth, hstring, hback]
  split <;> rfl

end Document

end Offside
