import Offside.Indentation
import Offside.Proofs.Lexical.Entries

/-!
# Where anchors lie

The offsets that the indentation of a line goes by all lie on earlier lines, and those measured from
them do not leave the line of the anchor.

* `Document.bracket_lt`, `stringStart_lt`: brackets and strings that are open at the start of a line
  began above it;
* `Document.exists_lineText_of_bracket`, `afterBracket_le`: what follows an open bracket on its line;
* `Document.assignmentContinuation?_le`, `lastDot?_lt`: the operators of a statement;
* `blockKeywordEnd?_le`, `alignedKeywordEnd?_le`: keywords end on their line.
-/

namespace Offside

open Lexical
open Text (size)

/-! ### The row of a character -/

namespace Text

/-- The row of a character of a text. -/
theorem exists_row_of_char {t u x : Text} {c : Char} (h : t = u ++ c :: x) :
    ∃ above v w below, t.rows = above ++ (v ++ c :: w) :: below ∧ u = above.flatten ++ v := by
  obtain ⟨above, row, below, hrows, hlo, hhi⟩ :=
    exists_rows_of_offset t.rows (rows_ne_nil t) (size u)
  have htext : above.flatten ++ (row ++ below.flatten) = u ++ c :: x :=
    (eq_flatten_of_rows hrows).symm.trans h
  rcases List.append_eq_append_iff.1 htext with ⟨v, rfl, hv⟩ | ⟨v, habove, hv⟩
  · rcases List.append_eq_append_iff.1 hv with ⟨w, rfl, hw⟩ | ⟨w, rfl, hw⟩
    · -- the row would end before the character
      rcases hhi with rfl | hhi
      · simp at hw
      · simp only [size_append] at hhi
        omega
    · cases w with
      | nil =>
        rcases hhi with rfl | hhi
        · simp at hw
        · simp at hhi
      | cons b w =>
        obtain ⟨rfl, -⟩ := List.cons_eq_cons.1 hw
        exact ⟨above, v, w, below, hrows, rfl⟩
  · -- the rows above would reach past the character
    obtain rfl : v = [] := by
      rw [habove, size_append] at hlo
      exact size_eq_zero_iff.1 (by omega)
    rw [List.append_nil] at habove
    rw [List.nil_append] at hv
    cases row with
    | nil =>
      rcases hhi with rfl | hhi
      · simp at hv
      · rw [habove, size_nil] at hhi
        omega
    | cons b w =>
      obtain ⟨rfl, -⟩ := List.cons_eq_cons.1 hv
      exact ⟨above, [], w, below, hrows, by simp [habove]⟩

end Text

/-- A character that belongs to no terminator is part of the body of its row. -/
theorem Line.body_ofRow {v w : Text} {c : Char} (hr : c ≠ '\r') (hn : c ≠ '\n') (start : Nat) :
    ∃ w', (ofRow start (v ++ c :: w)).body = v ++ c :: w' := by
  have hrow := ofRow_row start (v ++ c :: w)
  rw [row] at hrow
  have hending : c ∉ (ofRow start (v ++ c :: w)).ending.text := by
    cases (ofRow start (v ++ c :: w)).ending <;> simp [Ending.text, hr, hn]
  rcases List.append_eq_append_iff.1 hrow with ⟨u, -, hu⟩ | ⟨u, hu, hu'⟩
  · exact absurd (by simp [hu]) hending
  · cases u with
    | nil =>
      rw [List.nil_append] at hu'
      exact absurd (hu' ▸ List.mem_cons_self) hending
    | cons b u =>
      obtain ⟨rfl, -⟩ := List.cons_eq_cons.1 hu'
      exact ⟨u, hu⟩

/-! ### Operators and keywords -/

theorem utf8Size_of_isOperatorChar {c : Char} (h : isOperatorChar c = true) : c.utf8Size = 1 := by
  have hall : ['=', '+', '-', '*', '/', '%', '<', '>', '&', '^', '|', '@', '!', ':', '~', '.'].all
      (Char.utf8Size · == 1) = true := rfl
  exact beq_iff_eq.1 (List.all_eq_true.1 hall c (List.contains_iff_mem.1 h))

/-- The operator at the start of a run is part of the run. -/
theorem isPrefix_operatorAt (run : Text) : operatorAt run <+: run := by
  rw [operatorAt]
  split
  · next o ho =>
    have hprefix := List.find?_some ho
    exact List.isPrefixOf_iff_prefix.1 hprefix
  · exact List.take_prefix 1 run

theorem length_operatorAt_le (run : Text) : (operatorAt run).length ≤ run.length :=
  (isPrefix_operatorAt run).length_le

/-- The operators of a run are no longer than the run. -/
theorem length_operatorsFrom_le (n : Nat) (run : Text) :
    (operatorsFrom n run).flatten.length ≤ run.length := by
  induction n generalizing run with
  | zero => simp [operatorsFrom]
  | succ n ih =>
    cases run with
    | nil => simp [operatorsFrom]
    | cons c cs =>
      have hhead := length_operatorAt_le (c :: cs)
      have htail := ih ((c :: cs).drop (operatorAt (c :: cs)).length)
      rw [List.length_drop] at htail
      rw [operatorsFrom, List.flatten_cons, List.length_append]
      omega

theorem assignmentTokenEnd?_le {start stop : Nat} {tokens : List Text}
    (h : assignmentTokenEnd? start tokens = some stop) :
    stop ≤ start + tokens.flatten.length := by
  induction tokens generalizing start with
  | nil => cases h
  | cons token rest ih =>
    rw [assignmentTokenEnd?] at h
    rw [List.flatten_cons, List.length_append]
    split at h
    · cases h
      omega
    · have := ih h
      omega

/-- What holds of single operator characters, and of a run with one more before it, holds of all
runs. -/
theorem operatorRuns_induction {chars : List CodeChar} {P : Nat → Text → Prop}
    (one : ∀ c ∈ chars, isOperatorChar c.char = true → P c.offset [c.char])
    (more : ∀ c ∈ chars, isOperatorChar c.char = true → ∀ run,
      P (c.offset + c.char.utf8Size) run → P c.offset (c.char :: run)) :
    ∀ run ∈ operatorRuns chars, P run.1 run.2 := by
  induction chars with
  | nil => simp [operatorRuns]
  | cons c cs ih =>
    have hcs := ih (fun k hk => one k (List.mem_cons_of_mem c hk))
      fun k hk => more k (List.mem_cons_of_mem c hk)
    rw [operatorRuns]
    split
    · next hop =>
      have hone := one c List.mem_cons_self hop.2
      split
      · next start run rest hruns =>
        rw [hruns] at hcs ⊢
        split
        · next hadjacent =>
          have hrun := hcs (start, run) List.mem_cons_self
          have hmore := more c List.mem_cons_self hop.2 run (hadjacent ▸ hrun)
          exact List.forall_mem_cons.2 ⟨hmore, fun r hr => hcs r (List.mem_cons_of_mem _ hr)⟩
        · exact List.forall_mem_cons.2 ⟨hone, hcs⟩
      · exact List.forall_mem_singleton.2 hone
    · exact hcs

/-- A run of operator characters ends before anything that comes after all of them. -/
theorem operatorRuns_le {chars : List CodeChar} {stop : Nat} (h : ∀ c ∈ chars, c.offset < stop) :
    ∀ run ∈ operatorRuns chars, run.1 + run.2.length ≤ stop := by
  refine operatorRuns_induction (P := fun start run => start + run.length ≤ stop)
    (fun c hc _ => h c hc) fun c _ hop run hrun => ?_
  rw [utf8Size_of_isOperatorChar hop] at hrun
  rw [List.length_cons]
  omega

/-- The first assignment operator ends before anything that comes after all characters. -/
theorem assignmentEnd?_le {chars : List CodeChar} {stop n : Nat} (h : ∀ c ∈ chars, c.offset < stop)
    (hn : assignmentEnd? chars = some n) : n ≤ stop := by
  obtain ⟨run, hrun, hend⟩ := List.exists_of_findSome?_eq_some hn
  have hle := operatorRuns_le h run hrun
  have hlength := length_operatorsFrom_le run.2.length run.2
  have hstop := assignmentTokenEnd?_le hend
  rw [operatorTokens] at hstop
  omega

theorem utf8Size_of_isGap {c : Char} (h : isGap c = true) : c.utf8Size = 1 := by
  simp only [isGap, Bool.or_eq_true, beq_iff_eq] at h
  rcases h with rfl | rfl <;> rfl

/-- A gap after an offset ends with the text.  An offset within a character has no gap after it. -/
theorem add_length_gap_le {t : Text} {n : Nat} (h : n ≤ size t) :
    n + ((t.dropBytes n).takeWhile isGap).length ≤ size t := by
  induction t generalizing n with
  | nil => simpa [Text.dropBytes] using h
  | cons c cs ih =>
    rw [Text.size_cons] at h ⊢
    rw [Text.dropBytes]
    split
    · have := ih (n := n - c.utf8Size) (by omega)
      omega
    · next hlt =>
      by_cases hgap : isGap c = true
      · have hone := utf8Size_of_isGap hgap
        have htail := ih (n := 0) (Nat.zero_le _)
        rw [Text.dropBytes_zero] at htail
        rw [List.takeWhile_cons_of_pos hgap, List.length_cons]
        omega
      · rw [List.takeWhile_cons_of_neg hgap, List.length_nil]
        omega

theorem blockKeywordEnd?_le {t : Text} {k : BlockKeyword × Nat} (h : blockKeywordEnd? t = some k) :
    k.2 ≤ size t := by
  unfold blockKeywordEnd? at h
  dsimp only at h
  split at h
  · split at h
    · cases h
    · cases h
      exact Nat.sub_le _ _
  · cases h

theorem alignedKeywordEnd?_le {t : Text} {n : Nat} (h : alignedKeywordEnd? t = some n) :
    n ≤ size t := by
  unfold alignedKeywordEnd? at h
  dsimp only at h
  split at h
  · cases h
    exact Nat.sub_le _ _
  · cases h

namespace Document

variable {d : Document} {line : Nat}

/-- A code character of lines stands before the end of the range. -/
theorem offset_lt_of_mem_codeCharsOfLines {stop : Nat} {c : CodeChar}
    (h : c ∈ d.codeCharsOfLines line stop) : c.offset < stop :=
  Scanner.offset_lt_of_mem_codeChars h

/-- What follows the assignment operator of a statement stands on its first line. -/
theorem assignmentContinuation?_le {n : Nat} (h : d.assignmentContinuation? line = some n) :
    n ≤ d.buffer.lineEnd (d.statementStart line) := by
  unfold assignmentContinuation? at h
  dsimp only at h
  split at h
  · obtain ⟨stop, hstop, rfl⟩ := Option.map_eq_some_iff.1 h
    have hle := assignmentEnd?_le (fun c hc => offset_lt_of_mem_codeCharsOfLines hc) hstop
    have hgap := add_length_gap_le (t := (d.buffer.line (d.statementStart line)).body)
      (n := stop - (d.buffer.line (d.statementStart line)).start) (by rw [Line.stop] at hle; omega)
    rw [Buffer.lineEnd]
    rw [Line.stop] at hle ⊢
    omega
  · cases h

theorem lastDot?_lt {n : Nat} (h : d.lastDot? line = some n) : n < d.buffer.lineEnd line := by
  unfold lastDot? at h
  obtain ⟨c, hc, rfl⟩ := Option.map_eq_some_iff.1 h
  exact offset_lt_of_mem_codeCharsOfLines (List.mem_filter.1 (List.mem_of_getLast? hc)).1

/-! ### Brackets and strings -/

/-- A bracket that is open at the start of a line is an opening bracket of the text before it. -/
theorem exists_bracket {p : Nat} (hp : p ∈ (d.lineStartState line).parens) :
    ∃ u c x, d.text = u ++ c :: x ∧ p = size u ∧ IsOpening c ∧ p < d.buffer.lineStart line := by
  rw [lineStartState_eq, classify] at hp
  have hreach := Scanner.reached_ofOffset d.text (d.buffer.lineStart line)
  have hopens := hreach.opens p hp
  have hlt := hopens.lt
  obtain ⟨c, u, ⟨v, hv⟩, rfl, hc⟩ := hopens
  refine ⟨u.reverse, c, v.reverse ++ d.text.dropBytes (d.buffer.lineStart line), ?_, by simp, hc, ?_⟩
  · have htake := congrArg List.reverse hv
    have hjoin := Text.takeBytes_append_dropBytes (d.buffer.lineStart line) d.text
    rw [List.reverse_reverse] at htake
    rw [← htake] at hjoin
    simpa using hjoin.symm
  · rw [Text.size_reverse] at hlt
    exact Nat.lt_of_lt_of_le hlt (Text.floorBoundary_le _ _)

theorem bracket_lt {p : Nat} (hp : (d.lineStartState line).innermostParen? = some p) :
    p < d.buffer.lineStart line := by
  obtain ⟨-, -, -, -, -, -, hlt⟩ := exists_bracket (List.mem_of_mem_head? hp)
  exact hlt

/-- A string that is open at the start of a line began above it. -/
theorem stringStart_lt {s : OpenString} (hs : (d.lineStartState line).string? = some s) :
    s.start < d.buffer.lineStart line := by
  rw [lineStartState_eq, classify] at hs
  have hreach := Scanner.reached_ofOffset d.text (d.buffer.lineStart line)
  have hzone : (Scanner.ofOffset d.text (d.buffer.lineStart line)).state.zone = .string s := by
    revert hs
    unfold State.string?
    split
    · next o ho =>
      rintro ⟨⟩
      exact ho
    · simp
  have hlt := hreach.start_lt s hzone
  rw [Scanner.ofOffset_offset] at hlt
  exact Nat.lt_of_lt_of_le hlt (Text.floorBoundary_le _ _)

/-- A bracket that is open at the start of a line is followed by the rest of its own line. -/
theorem exists_lineText_of_bracket {p : Nat}
    (hp : (d.lineStartState line).innermostParen? = some p) :
    ∃ u r, d.buffer.lineText (d.buffer.lineOfOffset p) = u ++ r ∧
      p + 1 = d.buffer.lineStart (d.buffer.lineOfOffset p) + size u := by
  obtain ⟨u, c, x, htext, rfl, hc, -⟩ := exists_bracket (List.mem_of_mem_head? hp)
  obtain ⟨above, v, w, below, hrows, rfl⟩ := Text.exists_row_of_char htext
  have hone : c.utf8Size = 1 := by
    rcases hc with rfl | rfl | rfl <;> rfl
  have hne : c ≠ '\r' ∧ c ≠ '\n' := by
    rcases hc with rfl | rfl | rfl <;> decide
  have hbelow : size above.flatten ≤ size (above.flatten ++ v) := by simp
  have habove : size (above.flatten ++ v) < size above.flatten + size (v ++ c :: w) := by
    rw [Text.size_append, Text.size_append, Text.size_cons, hone]
    omega
  have hline := Buffer.lineOfOffset_of_rows (b := d.buffer) hrows hbelow (.inr habove)
  obtain ⟨w', hbody⟩ := Line.body_ofRow (v := v) (w := w) hne.1 hne.2 (size above.flatten)
  refine ⟨v ++ [c], w', ?_, ?_⟩
  · rw [hline, Buffer.lineText, Buffer.line_of_rows hrows, hbody]
    simp
  · rw [hline, Buffer.lineStart_of_rows hrows]
    simp only [Text.size_append, Text.size_cons, Text.size_nil, hone]
    omega

/-- What follows an open bracket on its line ends with the line. -/
theorem afterBracket_le {p : Nat} (hp : (d.lineStartState line).innermostParen? = some p) :
    p + 1 + size ((d.buffer.lineText (d.buffer.lineOfOffset p)).dropBytes
        (p + 1 - d.buffer.lineStart (d.buffer.lineOfOffset p))) ≤
      d.buffer.lineEnd (d.buffer.lineOfOffset p) := by
  obtain ⟨u, r, hbody, hstart⟩ := exists_lineText_of_bracket hp
  have hend : d.buffer.lineEnd (d.buffer.lineOfOffset p) =
      d.buffer.lineStart (d.buffer.lineOfOffset p) + size (u ++ r) := by
    rw [← hbody]
    rfl
  rw [hend, hstart, hbody, Nat.add_sub_cancel_left, Text.dropBytes_size, Text.size_append]
  omega

end Document

end Offside
