import Offside.Lexical.Scanner
import Offside.Proofs.Text.Boundary

/-!
# Whole tokens

The grammar of source texts, as a lexer that splits a text from left to right into whole tokens:
comments, strings and single characters of code.

* `Token`, `lex`: tokens, and the text cut into them;
* `flatten_lex`: the tokens of a text join to the text;
* `placed`, `Covers`: tokens with their offsets, and the offsets inside a token;
* `markedStart`: where a string begins, the letters before its quote included;
* `openBrackets`: the brackets that are open after some tokens.
-/

namespace Offside.Lexical

open Text (size)

/-- A token: a comment, a string with its quote and fence, or one character of code.  A comment or
string that runs up to the end of the text without its end is not closed. -/
inductive Token
  | comment (text : Text) (closed : Bool)
  | string (quote : Char) (fence : Fence) (text : Text) (closed : Bool)
  | code (c : Char)
  deriving DecidableEq, Repr

namespace Token

/-- The characters of a token. -/
def text : Token → Text
  | .comment text _ => text
  | .string _ _ text _ => text
  | .code c => [c]

/-- Whether a token has its end. -/
def closed : Token → Bool
  | .comment _ closed => closed
  | .string _ _ _ closed => closed
  | .code _ => true

end Token

/-! ### The lexer -/

/-- Some characters more, with the same end. -/
def longer (n : Nat) (r : Nat × Bool) : Nat × Bool := (n + r.1, r.2)

/-- The number of characters of a comment after its `#`, and whether it has its end: it goes up to
and including the next line feed. -/
def commentLength : Text → Nat × Bool
  | [] => (0, false)
  | c :: cs => if c = '\n' then (1, true) else longer 1 (commentLength cs)

/-- Whether a fence of a quote stands at the start of a text. -/
def fenceAt (quote : Char) (fence : Fence) (t : Text) : Bool :=
  (List.replicate fence.length quote).isPrefixOf t

/-- The number of characters of a string after its opening fence, and whether it has its end.  A
backslash escapes the next character, and a carriage return together with its line feed; the first
fence that is not escaped ends the string, and so does a line feed if the fence is single. -/
def stringLength (quote : Char) (fence : Fence) : Text → Nat × Bool
  | [] => (0, false)
  | '\\' :: '\r' :: '\n' :: cs => longer 3 (stringLength quote fence cs)
  | '\\' :: _ :: cs => longer 2 (stringLength quote fence cs)
  | c :: cs =>
    if fenceAt quote fence (c :: cs) then (fence.length, true)
    else if c = '\n' ∧ fence = .single then (1, true)
    else longer 1 (stringLength quote fence cs)

/-- The fence that opens a string at a quote. -/
def openingFence (quote : Char) (t : Text) : Fence :=
  if fenceAt quote .triple t then .triple else .single

/-- The token at the start of a text that is not empty. -/
def firstToken (c : Char) (cs : Text) : Token :=
  if c = '#' then .comment (c :: cs.take (commentLength cs).1) (commentLength cs).2
  else if c = '\'' ∨ c = '"' then
    let fence := openingFence c (c :: cs)
    let body := stringLength c fence ((c :: cs).drop fence.length)
    .string c fence ((c :: cs).take (fence.length + body.1)) body.2
  else .code c

theorem firstToken_text (c : Char) (cs : Text) :
    ∃ n, (firstToken c cs).text = (c :: cs).take (n + 1) := by
  unfold firstToken
  split
  · exact ⟨(commentLength cs).1, by simp [Token.text]⟩
  split
  · generalize openingFence c (c :: cs) = fence
    cases fence
    · exact ⟨_, by rw [Token.text, Fence.length, Nat.add_comm 1]⟩
    · exact ⟨2 + (stringLength c .triple ((c :: cs).drop 3)).1, by
        rw [Token.text, Fence.length]
        congr 1
        omega⟩
  · exact ⟨0, by simp [Token.text]⟩

/-- A text cut into tokens from left to right. -/
def lex : Text → List Token
  | [] => []
  | c :: cs =>
    firstToken c cs :: lex ((c :: cs).drop (firstToken c cs).text.length)
termination_by t => t.length
decreasing_by
  obtain ⟨n, hn⟩ := firstToken_text c cs
  rw [hn, List.length_drop, List.length_take, List.length_cons]
  omega

/-- The first token is the start of the text. -/
theorem firstToken_text_append (c : Char) (cs : Text) :
    (firstToken c cs).text ++ (c :: cs).drop (firstToken c cs).text.length = c :: cs := by
  obtain ⟨n, hn⟩ := firstToken_text c cs
  conv_rhs => rw [← List.take_append_drop (n + 1) (c :: cs)]
  rw [hn, List.length_take]
  congr 1
  rcases Nat.le_total (n + 1) (c :: cs).length with h | h
  · rw [Nat.min_eq_left h]
  · rw [Nat.min_eq_right h, List.drop_length, List.drop_eq_nil_of_le h]

theorem firstToken_text_ne_nil (c : Char) (cs : Text) : (firstToken c cs).text ≠ [] := by
  obtain ⟨n, hn⟩ := firstToken_text c cs
  simp [hn]

/-- The tokens of a text join to the text. -/
theorem flatten_lex (t : Text) : ((lex t).map Token.text).flatten = t := by
  fun_induction lex t with
  | case1 => rfl
  | case2 c cs ih => rw [List.map_cons, List.flatten_cons, ih, firstToken_text_append]

theorem text_ne_nil_of_mem_lex {t : Text} {k : Token} (h : k ∈ lex t) : k.text ≠ [] := by
  fun_induction lex t with
  | case1 => cases h
  | case2 c cs ih =>
    rcases List.mem_cons.1 h with rfl | h
    · exact firstToken_text_ne_nil c cs
    · exact ih h

/-! ### Tokens and offsets -/

/-- Tokens with their offsets, the first of which is `start`. -/
def placed : Nat → List Token → List (Nat × Token)
  | _, [] => []
  | start, k :: ks => (start, k) :: placed (start + size k.text) ks

/-- Whether an offset lies strictly inside a token at `start`, or at the end of one that is not
closed. -/
def Covers (start : Nat) (k : Token) (offset : Nat) : Prop :=
  start < offset ∧
    (offset < start + size k.text ∨ offset = start + size k.text ∧ k.closed = false)

instance (start : Nat) (k : Token) (offset : Nat) : Decidable (Covers start k offset) :=
  inferInstanceAs (Decidable (_ ∧ _))

/-- The words that can qualify a string. -/
def stringMarks : List String := ["r", "u", "b", "f", "rb", "br", "rf", "fr"]

/-- The longest word of letters, digits and underscores at the end of a text. -/
def lastWord (t : Text) : Text := (t.reverse.takeWhile isMarkChar).reverse

/-- Where a string begins whose first quote follows `before`: at the word before the quote if this
is one of the marks, in capitals or not. -/
def markedStart (before : Text) : Nat :=
  let word := lastWord before
  if stringMarks.any fun m => m.toList == word.map Char.toLower then size before - size word
  else size before

/-- The stack of open brackets after one more token: an opening bracket is put on it, and a closing
one takes off the innermost. -/
def bracketStep (stack : List Nat) (p : Nat × Token) : List Nat :=
  match p.2 with
  | .code c =>
    if ['(', '[', '{'].contains c then p.1 :: stack
    else if [')', ']', '}'].contains c then stack.tail
    else stack
  | _ => stack

/-- The brackets that are open after some tokens, innermost first. -/
def openBrackets (tokens : List (Nat × Token)) : List Nat := tokens.foldl bracketStep []

end Offside.Lexical
