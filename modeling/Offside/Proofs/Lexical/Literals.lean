import Offside.Proofs.Lexical.Places

/-!
# Strings and comments of a text

The strings of a text are cut out by the lexer, each with the letters before its quote that qualify
it, and so are the comments.  Where a line starts in code the lexer starts afresh, so the
indentation of such a line is no part of them.

* `Text.literals`, `Text.comments`;
* `lex_append`: whole lines without an open token are cut off from what follows;
* `closed_of_mem_lex`: no token is open where the scanner is in code;
* `literals_indent`, `comments_indent`: another indentation of a line that starts in code.
-/

namespace Offside

open Lexical
open Text (size)

namespace Lexical

/-- The letters at the end of a text that qualify a string which begins after them. -/
def stringMark (before : Text) : Text :=
  if stringMarks.any fun m => m.toList == (lastWord before).map Char.toLower then lastWord before
  else []

/-- The strings among the tokens after a text, each with the letters that qualify it. -/
def literalsAfter : Text → List Token → List Text
  | _, [] => []
  | before, .string _ _ text _ :: ks =>
    (stringMark before ++ text) :: literalsAfter (before ++ text) ks
  | before, k :: ks => literalsAfter (before ++ k.text) ks

/-- The characters of a comment. -/
def Token.comment? : Token → Option Text
  | .comment text _ => some text
  | _ => none

end Lexical

namespace Text

/-- The strings of a text in their order. -/
def literals (t : Text) : List Text := literalsAfter [] (lex t)

/-- The comments of a text in their order. -/
def comments (t : Text) : List Text := (lex t).filterMap Token.comment?

end Text

namespace Lexical

/-! ### Tokens and what follows them -/

theorem commentLength_append {t : Text} (h : (commentLength t).2 = true) (x : Text) :
    commentLength (t ++ x) = commentLength t := by
  induction t with
  | nil => cases h
  | cons c cs ih =>
    rw [List.cons_append, commentLength, commentLength]
    rw [commentLength] at h
    split
    · rfl
    · next hc =>
      rw [if_neg hc] at h
      rw [ih h]

/-- A text of whole lines that is not empty shows whether it starts with a fence. -/
theorem fenceAt_append {q : Char} (hq : IsQuote q) (f : Fence) {t : Text} (ht : Text.EndsLine t)
    (hne : t ≠ []) (x : Text) : fenceAt q f (t ++ x) = fenceAt q f t := by
  obtain ⟨b, rfl⟩ := ht.resolve_left hne
  have hline : q ≠ '\n' := by rcases hq with rfl | rfl <;> decide
  rw [fenceAt, fenceAt, Bool.eq_iff_iff, List.isPrefixOf_iff_prefix, List.isPrefixOf_iff_prefix]
  constructor
  · intro h
    -- a fence that is longer would have the line feed in it
    have hcases := List.prefix_or_prefix_of_prefix h (List.prefix_append _ x)
    refine hcases.resolve_right fun hlong => ?_
    have hmem : '\n' ∈ List.replicate f.length q := hlong.subset (by simp)
    exact hline (List.eq_of_mem_replicate hmem).symm
  · intro h
    exact h.trans (List.prefix_append _ x)

/-- A character of a string that is no backslash. -/
theorem stringLength_cons {q c : Char} {f : Fence} (hc : c ≠ '\\') (cs : Text) :
    stringLength q f (c :: cs) =
      if fenceAt q f (c :: cs) then (f.length, true)
      else if c = '\n' ∧ f = .single then (1, true)
      else longer 1 (stringLength q f cs) := by
  rw [stringLength]
  · exact fun _ h => absurd h hc
  · exact fun _ _ h => absurd h hc

/-- A backslash at the end of a text is not the end of a line. -/
theorem ne_backslash_of_endsLine {c : Char} {cs : Text} (ht : Text.EndsLine (c :: cs))
    (h : ∀ a as, c = '\\' → cs = a :: as → False) : c ≠ '\\' := by
  rintro rfl
  cases cs with
  | nil =>
    obtain ⟨b, hb⟩ := ht.resolve_left (List.cons_ne_nil _ _)
    have hlast := congrArg List.getLast? hb
    simp at hlast
  | cons a as => exact h a as rfl rfl

/-- Where a string ends in whole lines it ends there whatever follows them. -/
theorem stringLength_append {q : Char} (hq : IsQuote q) (f : Fence) {t : Text}
    (ht : Text.EndsLine t) (h : (stringLength q f t).2 = true) (x : Text) :
    stringLength q f (t ++ x) = stringLength q f t := by
  fun_induction stringLength q f t with
  | case1 => cases h
  | case2 cs ih =>
    rw [List.cons_append, List.cons_append, List.cons_append, stringLength,
      ih (Text.EndsLine.of_append (p := ['\\', '\r', '\n']) ht) h]
  | case3 c cs hne ih =>
    rw [List.cons_append, List.cons_append, stringLength,
      ih (Text.EndsLine.of_append (p := ['\\', c]) ht) h]
    intro rest hc hrest
    cases cs with
    | nil => cases h
    | cons a as =>
      obtain ⟨rfl, -⟩ := List.cons_eq_cons.1 hrest
      exact hne as hc rfl
  | case4 c cs hb hb' hf =>
    have hfence := fenceAt_append hq f ht (List.cons_ne_nil c cs) x
    rw [List.cons_append] at hfence ⊢
    rw [stringLength_cons (ne_backslash_of_endsLine ht hb'), if_pos (hfence.trans hf)]
  | case5 c cs hb hb' hf hn =>
    have hfence := fenceAt_append hq f ht (List.cons_ne_nil c cs) x
    rw [List.cons_append] at hfence ⊢
    rw [stringLength_cons (ne_backslash_of_endsLine ht hb'), hfence, if_neg hf, if_pos hn]
  | case6 c cs hb hb' hf hn ih =>
    have hfence := fenceAt_append hq f ht (List.cons_ne_nil c cs) x
    rw [List.cons_append] at hfence ⊢
    rw [stringLength_cons (ne_backslash_of_endsLine ht hb'), hfence, if_neg hf, if_neg hn,
      ih (Text.EndsLine.of_append (p := [c]) ht) h]

/-- A token that has its end in whole lines is the same whatever follows them. -/
theorem firstToken_append {c : Char} {cs : Text} (ht : Text.EndsLine (c :: cs))
    (h : (firstToken c cs).closed = true) (x : Text) :
    firstToken c (cs ++ x) = firstToken c cs := by
  unfold firstToken at h ⊢
  split
  · next hc =>
    rw [if_pos hc] at h
    have hcomment := commentLength_append (t := cs) h x
    rw [hcomment, List.take_append_of_le_length (commentLength_le cs).1]
  · next hc =>
    rw [if_neg hc] at h
    split
    · next hq =>
      rw [if_pos hq] at h
      have hopen : openingFence c (c :: (cs ++ x)) = openingFence c (c :: cs) := by
        have hfence := fenceAt_append hq .triple ht (List.cons_ne_nil c cs) x
        rw [List.cons_append] at hfence
        rw [openingFence, openingFence, hfence]
      have hlength := (openingFence_length c (c :: cs) (List.cons_ne_nil c cs)).2
      dsimp only at h ⊢
      rw [hopen]
      generalize openingFence c (c :: cs) = f at h hlength ⊢
      have hdrop : (c :: (cs ++ x)).drop f.length = (c :: cs).drop f.length ++ x := by
        rw [← List.cons_append, List.drop_append_of_le_length hlength]
      have hends : Text.EndsLine ((c :: cs).drop f.length) :=
        Text.EndsLine.of_append (p := (c :: cs).take f.length) (by rwa [List.take_append_drop])
      have hle := (stringLength_le c f ((c :: cs).drop f.length)).1
      rw [List.length_drop] at hle
      rw [hdrop, stringLength_append hq f hends h, ← List.cons_append,
        List.take_append_of_le_length (by omega)]
    · rfl

/-- Whole lines in which all tokens have their ends are cut off from what follows. -/
theorem lex_append {p : Text} (hp : Text.EndsLine p) (h : ∀ k ∈ lex p, k.closed = true) (x : Text) :
    lex (p ++ x) = lex p ++ lex x := by
  fun_induction lex p with
  | case1 => rfl
  | case2 c cs ih =>
    have hfirst := firstToken_append hp (h _ List.mem_cons_self) x
    have hjoin := firstToken_text_append c cs
    have hle : (firstToken c cs).text.length ≤ (c :: cs).length := by
      rw [← hjoin, List.length_append]
      omega
    rw [List.cons_append, lex, hfirst, ← List.cons_append, List.drop_append_of_le_length hle,
      ih (Text.EndsLine.of_append (by rwa [hjoin])) fun k hk => h k (List.mem_cons_of_mem _ hk)]
    rfl

theorem lex_cons_of_isIndentChar {c : Char} (hc : isIndentChar c = true) (cs : Text) :
    lex (c :: cs) = .code c :: lex cs := by
  have hne : c ≠ '#' ∧ ¬ (c = '\'' ∨ c = '"') := by
    simp only [isIndentChar, Bool.or_eq_true, beq_iff_eq] at hc
    rcases hc with (rfl | rfl) | rfl <;> decide
  have hfirst : firstToken c cs = .code c := by
    rw [firstToken, if_neg hne.1, if_neg hne.2]
  rw [lex, hfirst]
  rfl

/-- Indentation is code. -/
theorem lex_indentation {i : Text} (hi : Text.IsIndentation i) (x : Text) :
    lex (i ++ x) = i.map Token.code ++ lex x := by
  induction i with
  | nil => rfl
  | cons c cs ih =>
    rw [List.cons_append, lex_cons_of_isIndentChar (hi c List.mem_cons_self),
      ih fun k hk => hi k (List.mem_cons_of_mem c hk)]
    rfl

/-- Where the scanner ends up in code all tokens have their ends. -/
theorem closed_of_mem_lex {t before : Text} {parens : List Nat} {s : Scanner} (h : s.Between parens)
    (ho : s.offset = size before) (hz : (s.readN before t.length t).state.zone = .code) :
    ∀ k ∈ lex t, k.closed = true := by
  fun_induction lex t generalizing before parens s with
  | case1 =>
    intro k hk
    cases hk
  | case2 c cs ih =>
    have hreads : Reads before parens (firstToken c cs) (c :: cs) s := reads_firstToken h ho
    have hjoin := firstToken_text_append c cs
    have hne := firstToken_text_ne_nil c cs
    generalize firstToken c cs = k at *
    generalize (c :: cs).drop k.text.length = x at *
    rw [← hjoin] at hreads hz
    cases hc : k.closed with
    | false =>
      -- a token without its end goes up to the end of the text, where the scanner is inside it
      have hlength := hreads.rest hc
      rw [← hlength, hreads.inside _ (List.length_pos_iff.2 hne) (.inr ⟨rfl, hc⟩)] at hz
      cases k with
      | code c => cases hc
      | comment text closed => cases hz
      | string quote fence text closed => cases hz
    | true =>
      rw [List.length_append, Scanner.readN_add, List.take_left' rfl, List.drop_left' rfl] at hz
      have hoffset : (s.readN before k.text.length (k.text ++ x)).offset =
          size (k.text.reverse ++ before) := by
        rw [← Scanner.read_take, List.take_left' rfl, List.drop_left' rfl, Scanner.read_offset, ho]
        simp [Nat.add_comm]
      have hrest := ih (hreads.after hc) hoffset hz
      intro k' hk'
      rcases List.mem_cons.1 hk' with rfl | hk'
      · exact hc
      · exact hrest k' hk'

theorem closed_of_zone {p x : Text} (hp : Text.EndsLine p)
    (hz : (({} : Scanner).read [] p x).state.zone = .code) : ∀ k ∈ lex p, k.closed = true := by
  have hread : ({} : Scanner).read [] p x = ({} : Scanner).readN [] p.length p := by
    rw [← Scanner.read_take, List.take_length, List.drop_length]
    rcases hp with rfl | ⟨q, rfl⟩
    · rfl
    · exact Scanner.read_newline_congr Reached.init x []
  rw [hread] at hz
  exact closed_of_mem_lex ⟨rfl, rfl, rfl⟩ rfl hz

/-! ### Strings and comments part by part -/

theorem literalsAfter_append (before : Text) (ks ls : List Token) :
    literalsAfter before (ks ++ ls) =
      literalsAfter before ks ++ literalsAfter (before ++ (ks.map Token.text).flatten) ls := by
  induction ks generalizing before with
  | nil => simp [literalsAfter]
  | cons k ks ih => cases k <;> simp [literalsAfter, ih, Token.text]

theorem literalsAfter_code (before i : Text) : literalsAfter before (i.map Token.code) = [] := by
  induction i generalizing before with
  | nil => rfl
  | cons c cs ih => simp [literalsAfter, ih]

/-- The letters before a quote are not looked for further back. -/
theorem literalsAfter_of_noWord {b : Text} (hb : NoWord b.reverse) (u : Text) (ks : List Token) :
    literalsAfter (b ++ u) ks = literalsAfter u ks := by
  have hword : ∀ v, stringMark (b ++ v) = stringMark v := by
    intro v
    have hlast : lastWord (b ++ v) = lastWord v := by
      rw [lastWord, lastWord, List.reverse_append, hb.takeWhile_append]
    rw [stringMark, stringMark, hlast]
  induction ks generalizing u with
  | nil => rfl
  | cons k ks ih => cases k <;> simp [literalsAfter, ih, hword]

theorem flatten_map_code (i : Text) : ((i.map Token.code).map Token.text).flatten = i := by
  induction i with
  | nil => rfl
  | cons c cs ih =>
    rw [List.map_cons, List.map_cons, List.flatten_cons, ih]
    rfl

theorem NoWord.endsLine {p : Text} (hp : Text.EndsLine p) : NoWord p.reverse := by
  rcases hp with rfl | ⟨q, rfl⟩
  · exact nofun
  · rw [List.reverse_concat]
    exact newline q.reverse

section Indentation

variable {p i : Text} (hp : Text.EndsLine p) (hclosed : ∀ k ∈ lex p, k.closed = true)
  (hi : Text.IsIndentation i) (x : Text)

include hp hclosed hi

/-- The strings before and after the indentation of a line that starts in code. -/
theorem literals_indent : Text.literals (p ++ (i ++ x)) = p.literals ++ x.literals := by
  have hnone : NoWord (p ++ i).reverse := by
    rw [List.reverse_append]
    exact (NoWord.endsLine hp).indentation hi
  have hx := literalsAfter_of_noWord hnone [] (lex x)
  rw [List.append_nil] at hx
  rw [Text.literals, lex_append hp hclosed, lex_indentation hi, literalsAfter_append, flatten_lex,
    List.nil_append, literalsAfter_append, literalsAfter_code, List.nil_append, flatten_map_code,
    hx]
  rfl

/-- The comments before and after the indentation of a line that starts in code. -/
theorem comments_indent : Text.comments (p ++ (i ++ x)) = p.comments ++ x.comments := by
  have hnone : (i.map Token.code).filterMap Token.comment? = [] := by
    simp [List.filterMap_map, Function.comp_def, Token.comment?]
  rw [Text.comments, lex_append hp hclosed, lex_indentation hi, List.filterMap_append,
    List.filterMap_append, hnone, List.nil_append]
  rfl

end Indentation

example : Text.literals "if a:\n  x = rb'b # c' # d".toList = ["rb'b # c'".toList] ∧
    Text.comments "if a:\n  x = rb'b # c' # d".toList = ["# d".toList] := by decide +kernel

end Lexical

end Offside
