import Offside.Proofs.Lexical.Cache
import Offside.Proofs.Lexical.SplitScanner

/-!
# The scanner at the start of a line

At the start of a line the scanner stands between tokens and in no comment, so it can always be kept
as a checkpoint.  It may stand in a string.  One in single quotes goes on past the end of a line only
if the terminator is escaped, and as backslashes are taken in pairs this means that the text of the
line ends in an odd number of them.

* `backslashes`: the number of backslashes at the end of a text;
* `Scanner.Escaping`: in a string in single quotes, what is skipped comes after an odd number;
* `odd_backslashes_of_inSingle`: a string in single quotes that is open at the start of a line;
* `scanners_are_well_formed`.
-/

namespace Offside.Lexical

open Text (size)

/-! ### Backslashes at the end of a text -/

/-- The number of backslashes at the end of a text that is read backwards. -/
def backslashes (before : Text) : Nat := (before.takeWhile (· == '\\')).length

theorem backslashes_backslash (before : Text) :
    backslashes ('\\' :: before) = backslashes before + 1 := by
  simp [backslashes]

theorem backslashes_of_ne {c : Char} (hc : c ≠ '\\') (before : Text) :
    backslashes (c :: before) = 0 := by
  simp [backslashes, hc]

/-- After an odd number of backslashes comes one that follows an even number. -/
theorem even_of_odd_backslashes {c : Char} {before : Text}
    (h : backslashes (c :: before) % 2 = 1) : c = '\\' ∧ backslashes before % 2 = 0 := by
  by_cases hc : c = '\\'
  · subst hc
    rw [backslashes_backslash] at h
    exact ⟨rfl, by omega⟩
  · rw [backslashes_of_ne hc] at h
    cases h

/-- Backslashes are not counted across the end of a line. -/
theorem backslashes_append {p : Text} (hp : Text.EndsLine p) (u : Text) :
    backslashes (u ++ p.reverse) = backslashes u := by
  have hstop : p.reverse.takeWhile (· == '\\') = [] := by
    rcases hp with rfl | ⟨q, rfl⟩
    · rfl
    · rw [List.reverse_concat]
      rfl
  rw [backslashes, backslashes, List.takeWhile_append, hstop, List.append_nil]
  split
  · next hlength => rw [((List.takeWhile_prefix _).eq_of_length hlength)]
  · rfl

/-! ### What is escaped -/

theorem exists_of_escapeLength {t : Text} (h : escapeLength t = 2) :
    ∃ r, t = '\r' :: '\n' :: r := by
  unfold escapeLength at h
  split at h
  · cases h
  · exact ⟨_, rfl⟩
  · cases h

namespace Scanner

variable {before after : Text} {c : Char} {s t : Scanner}

/-- Whether the scanner is in a string in single quotes. -/
def InSingle (s : Scanner) : Prop := ∃ o, s.state.zone = .string o ∧ o.fence = .single

/-- What a move into or within a string in single quotes is: one more character that is skipped, a
backslash, or a character that is neither a backslash nor a line feed. -/
theorem Move.of_inSingle (hm : Move before c after s t) (hin : t.InSingle) :
    (0 < s.skip ∧ s.InSingle ∧ t.skip = s.skip - 1) ∨
      (s.skip = 0 ∧ s.InSingle ∧ c = '\\' ∧ t.skip = escapeLength after) ∨
      (c ≠ '\\' ∧ c ≠ '\n' ∧ t.skip = 0) := by
  obtain ⟨o, ho, hfence⟩ := hin
  cases hm with
  | skipped hs => exact .inl ⟨hs, ⟨o, ho, hfence⟩, rfl⟩
  | escape hs _ hc => exact .inr (.inl ⟨hs, ⟨o, ho, hfence⟩, hc, rfl⟩)
  | inString hs hz hc hend =>
    obtain rfl := Zone.string.inj (hz.symm.trans ho)
    exact .inr (.inr ⟨hc, (hend hfence).1, hs⟩)
  | single hs _ hc => exact .inr (.inr ⟨by rintro rfl; exact absurd hc (by decide),
      by rintro rfl; exact absurd hc (by decide), hs⟩)
  | fence _ hz htriple =>
    obtain rfl := Zone.string.inj (hz.symm.trans ho)
    cases htriple.symm.trans hfence
  | triple =>
    obtain rfl := Zone.string.inj ho
    cases hfence
  | closed | endString | endComment | comment => cases ho
  | inComment _ hz | opening _ hz | closing _ hz | inCode _ hz => cases hz.symm.trans ho

/-- What a scanner in a string in single quotes skips between the text before it, read backwards, and
the text after it.  After an odd number of backslashes it is what the last of them escapes; and if
anything is to be skipped, then the number is odd, or the scanner has come to the line feed of an
escaped terminator. -/
structure Escaping (before after : Text) (s : Scanner) : Prop where
  odd : s.InSingle → backslashes before % 2 = 1 → s.skip = escapeLength after
  skip : s.InSingle → 0 < s.skip → backslashes before % 2 = 1 ∨
    ∃ b, before = '\r' :: b ∧ backslashes b % 2 = 1 ∧ after.head? = some '\n'

namespace Escaping

theorem init (text : Text) : Escaping [] text {} := by
  constructor <;> · rintro ⟨o, ho, -⟩; cases ho

/-- After a move an odd number of backslashes is what the last one escapes. -/
theorem odd_move (h : Escaping before (c :: after) s) (hm : Move before c after s t)
    (hin : t.InSingle) (hodd : backslashes (c :: before) % 2 = 1) : t.skip = escapeLength after := by
  obtain ⟨rfl, heven⟩ := even_of_odd_backslashes hodd
  rcases hm.of_inSingle hin with ⟨hs, hin', -⟩ | ⟨-, -, -, hskip⟩ | ⟨hc, -⟩
  · -- a backslash that is itself escaped would follow an odd number of them
    rcases h.skip hin' hs with hodd' | ⟨b, -, -, hhead⟩
    · omega
    · cases hhead
  · exact hskip
  · exact absurd rfl hc

/-- After a move anything that is to be skipped is escaped. -/
theorem skip_move (h : Escaping before (c :: after) s) (hp : Pending s (c :: after))
    (hm : Move before c after s t) (hin : t.InSingle) (hpos : 0 < t.skip) :
    backslashes (c :: before) % 2 = 1 ∨
      ∃ b, c :: before = '\r' :: b ∧ backslashes b % 2 = 1 ∧ after.head? = some '\n' := by
  rcases hm.of_inSingle hin with ⟨hs, hin', hskip⟩ | ⟨hs, hin', rfl, -⟩ | ⟨-, -, hskip⟩
  · have htwo : s.skip = 2 := by
      have hle := hp.1
      omega
    rcases h.skip hin' hs with hodd | ⟨b, -, -, hhead⟩
    · -- two characters are escaped only at a terminator
      obtain ⟨r, hr⟩ := exists_of_escapeLength ((h.odd hin' hodd).symm.trans htwo)
      obtain ⟨rfl, rfl⟩ := List.cons_eq_cons.1 hr
      exact .inr ⟨before, rfl, hodd, rfl⟩
    · exact absurd hhead (hp.2 htwo)
  · have heven : backslashes before % 2 ≠ 1 := by
      intro hodd
      have hone : s.skip = 1 := h.odd hin' hodd
      omega
    rw [backslashes_backslash]
    exact .inl (by omega)
  · omega

/-- Reading keeps what is escaped. -/
theorem read {p : Text} (h : Escaping before (p ++ after) s) (hr : Reached before s)
    (hp : Pending s (p ++ after)) : Escaping (p.reverse ++ before) after (s.read before p after) := by
  induction p generalizing before s with
  | nil => exact h
  | cons c cs ih =>
    have hm := move_step before c (cs ++ after) s
    rw [List.reverse_cons, List.append_assoc]
    exact ih ⟨h.odd_move hm, h.skip_move hp hm⟩ (hr.step c (cs ++ after)) (Pending.step hr hp)

end Escaping

/-- A string in single quotes that goes on past a line feed has it escaped. -/
theorem odd_backslashes_of_newline {p x : Text}
    (hin : (({} : Scanner).read [] (p ++ ['\n']) x).InSingle) :
    backslashes p.reverse % 2 = 1 ∨
      ∃ b, p.reverse = '\r' :: b ∧ backslashes b % 2 = 1 := by
  have h := (Escaping.init (p ++ '\n' :: x)).read Reached.init (.of_skip_eq_zero rfl _)
  have hm := move_step p.reverse '\n' x (({} : Scanner).read [] p ('\n' :: x))
  rw [read_append, List.append_nil] at hin
  rw [List.append_nil] at h
  rcases hm.of_inSingle hin with ⟨hs, hin', -⟩ | ⟨-, -, hc, -⟩ | ⟨-, hc, -⟩
  · exact (h.skip hin' hs).imp_right fun ⟨b, hb, hodd, _⟩ => ⟨b, hb, hodd⟩
  · exact absurd hc (by decide)
  · exact absurd rfl hc

end Scanner

/-! ### Lines -/

/-- The text of a line before a line feed that is escaped, alone or with its carriage return. -/
theorem odd_backslashes_body {q : Text} (hq : '\n' ∉ q) (start : Nat)
    (h : backslashes q.reverse % 2 = 1 ∨ ∃ b, q.reverse = '\r' :: b ∧ backslashes b % 2 = 1) :
    backslashes (Line.ofRow start (q ++ ['\n'])).body.reverse % 2 = 1 := by
  rcases Line.ofRow_cases start ⟨q, hq, rfl⟩ with ⟨body, hrow, hline⟩ | ⟨body, hrow, hline, hreturn⟩
  · obtain rfl : q = body ++ ['\r'] := by simpa using congrArg List.dropLast hrow
    rw [hline]
    rw [List.reverse_concat] at h
    rcases h with hodd | ⟨b, hb, hodd⟩
    · rw [backslashes_of_ne (by decide)] at hodd
      cases hodd
    · rwa [(List.cons_eq_cons.1 hb).2]
  · obtain rfl : q = body := List.append_cancel_right hrow
    rw [hline]
    rcases h with hodd | ⟨b, hb, -⟩
    · exact hodd
    · exact absurd (List.reverse_eq_cons_iff.1 hb) (hreturn b.reverse)

/-- A string in single quotes is open at the start of a line only if the text of the line before ends
in an odd number of backslashes. -/
theorem odd_backslashes_of_inSingle {b : Buffer} {row row' : Text} {above below : List Text}
    (h : b.text.rows = above ++ row :: row' :: below)
    (hin : (Scanner.ofOffset b.text (size (above ++ [row]).flatten)).InSingle) :
    backslashes (b.lineText (above.length + 1)).reverse % 2 = 1 := by
  have h' : b.text.rows = (above ++ [row]) ++ row' :: below := by rw [h, List.append_assoc]; rfl
  obtain ⟨q, hq, rfl⟩ := Text.isFullRow_of_rows h' row (by simp)
  have habove := Text.endsLine_flatten (Text.isFullRow_of_rows h)
  rw [Text.eq_flatten_of_rows h', Scanner.ofOffset_size] at hin
  have hjoin : (above ++ [q ++ ['\n']]).flatten = (above.flatten ++ q) ++ ['\n'] := by simp
  rw [hjoin] at hin
  rw [Buffer.lineText, Buffer.line_of_rows h]
  refine odd_backslashes_body hq _ ?_
  -- the backslashes stand in the row itself, not in those above it
  have hodd := Scanner.odd_backslashes_of_newline hin
  rw [List.reverse_append, backslashes_append habove] at hodd
  refine hodd.imp_right fun ⟨u, hu, hu'⟩ => ?_
  cases hr : q.reverse with
  | nil =>
    rw [hr, List.nil_append] at hu
    rcases habove with hnil | ⟨v, hv⟩
    · rw [hnil] at hu
      cases hu
    · rw [hv, List.reverse_concat] at hu
      cases (List.cons_eq_cons.1 hu).1
  | cons c r =>
    rw [hr, List.cons_append] at hu
    obtain ⟨rfl, rfl⟩ := List.cons_eq_cons.1 hu
    exact ⟨r, rfl, by rwa [backslashes_append habove] at hu'⟩

/-- Recording a scanner between tokens leaves a checkpoint at its offset. -/
theorem Cache.exists_checkpoint_of_record {s : Scanner} (hs : s.atBoundary = true) (c : Cache) :
    ∃ r ∈ (c.record s).checkpoints, r.offset = s.offset := by
  rw [record, if_pos hs]
  dsimp only
  induction c.checkpoints with
  | nil => exact ⟨s, List.mem_singleton_self s, rfl⟩
  | cons t ts ih =>
    unfold insertSorted
    split
    · exact ⟨s, List.mem_cons_self, rfl⟩
    · split
      · next heq => exact ⟨t, List.mem_cons_self, heq.symm⟩
      · obtain ⟨r, hr, hoffset⟩ := ih
        exact ⟨r, List.mem_cons_of_mem t hr, hoffset⟩

/-- At the start of a line the scanner stands between tokens, and in no comment. -/
theorem atBoundary_of_rows {b : Buffer} {row : Text} {above below : List Text}
    (h : b.text.rows = above ++ row :: below) :
    (Scanner.ofOffset b.text (size above.flatten)).atBoundary = true ∧
      (Scanner.ofOffset b.text (size above.flatten)).state.comment? = none := by
  have hends := Text.endsLine_flatten (Text.isFullRow_of_rows h)
  rw [Text.eq_flatten_of_rows h, Scanner.ofOffset_size]
  refine ⟨beq_iff_eq.2 (Scanner.skip_read_of_endsLine Reached.init rfl hends _), ?_⟩
  rcases hends with hnil | ⟨q, hq⟩
  · rw [hnil]
    rfl
  · rw [hq, Scanner.read_append, Option.eq_none_iff_forall_ne_some]
    intro n hn
    exact zone_of_newline (Reached.init.read _) n (State.comment?_eq_some.1 hn)

/-- **Every scanner of a text is well-formed, and more so at the start of a line.**  Whatever number
of steps a scanner has taken from the beginning, it is in a string or in a comment or in neither;
the open brackets are brackets of code in the order in which they stand; the string or comment began
after all of them, so the innermost start is the last one of all; and what is still to be skipped
belongs to a string, in three quotes if it is about to be closed.  A scanner that keeps its string
and its comment in two fields goes through the same states, and never has both fields set.  At the
start of a line the scanner stands between tokens and in no comment, so it is never refused as a
checkpoint, and it is in a string in single quotes only if the text of the line before ends in an
odd number of backslashes. -/
theorem scanners_are_well_formed (b : Buffer) :
    (∀ s ∈ scanners b.text, s.IsValid b.text) ∧
    (splitScanners b.text = (scanners b.text).map Scanner.split ∧
      ∀ r ∈ splitScanners b.text, r.string? = none ∨ r.comment? = none) ∧
    ∀ line, 1 ≤ line → line ≤ b.lineCount →
      let s := Scanner.ofOffset b.text (b.lineStart line)
      s ∈ scanners b.text ∧ s.offset = b.lineStart line ∧
      s.atBoundary = true ∧ s.state.comment? = none ∧
      (∀ c : Cache, ∃ r ∈ (c.record s).checkpoints, r.offset = b.lineStart line) ∧
      ∀ o, s.state.string? = some o → o.fence = .single →
        1 < line ∧ backslashes (b.lineText (line - 1)).reverse % 2 = 1 := by
  refine ⟨fun s hs => Scanner.isValid_of_mem_scanners hs, ⟨splitScanners_eq b.text,
    fun r hr => string?_eq_none_or_comment?_eq_none hr⟩, fun line hlo hhi => ?_⟩
  intro s
  have hoffset : s.offset = b.lineStart line := by
    rw [Scanner.ofOffset_offset]
    exact b.isBoundary_lineStart line
  obtain ⟨above, row, below, h, rfl⟩ := Buffer.exists_rows hlo hhi
  have hstart : s = Scanner.ofOffset b.text (size above.flatten) := by
    rw [← Buffer.lineStart_of_rows h]
  obtain ⟨hboundary, hcomment⟩ := atBoundary_of_rows h
  rw [← hstart] at hboundary hcomment
  refine ⟨ofOffset_mem_scanners _ _, hoffset, hboundary, hcomment, fun c => ?_, fun o ho hfence => ?_⟩
  · rw [← hoffset]
    exact c.exists_checkpoint_of_record hboundary
  · have hin : s.InSingle := ⟨o, State.string?_eq_some.1 ho, hfence⟩
    rcases List.eq_nil_or_concat above with rfl | ⟨upper, last, rfl⟩
    · -- no string is open at the beginning
      have hinit : s = {} := hstart.trans (Scanner.ofOffset_size [] b.text)
      rw [hinit] at ho
      cases ho
    · rw [List.concat_eq_append] at h hstart ⊢
      rw [List.append_assoc] at h
      rw [hstart] at hin
      refine ⟨by simp, ?_⟩
      rw [List.length_append]
      exact odd_backslashes_of_inSingle h hin

/-- The second line starts in a string with two letters before its quote, inside two brackets, after
an escaped backslash and an escaped terminator. -/
theorem scanners_are_well_formed_after_escape :
    let b := Buffer.ofText "f([rb'a\\\\\\\r\n b']) # c\n".toList 8
    let s := Scanner.ofOffset b.text (b.lineStart 2)
    s = ⟨12, ⟨.string ⟨'\'', .single, 3⟩, [2, 1]⟩, 0, false⟩ ∧ s ∈ scanners b.text ∧
      s.state.innermostStart? = s.state.starts.max? ∧
      s.split ∈ splitScanners b.text ∧ backslashes (b.lineText 1).reverse % 2 = 1 := by
  intro b s
  have hs : s = ⟨12, ⟨.string ⟨'\'', .single, 3⟩, [2, 1]⟩, 0, false⟩ := by decide +kernel
  obtain ⟨hvalid, ⟨hsplit, -⟩, hlines⟩ := scanners_are_well_formed b
  obtain ⟨hmem, -, -, -, -, hstring⟩ := hlines 2 (by decide) (by decide +kernel)
  have hopen : s.state.string? = some ⟨'\'', .single, 3⟩ := by rw [hs]; rfl
  exact ⟨hs, hmem, (hvalid s hmem).innermost, hsplit ▸ List.mem_map_of_mem hmem,
    (hstring _ hopen rfl).2⟩

end Offside.Lexical
