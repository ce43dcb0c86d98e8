import Offside.Proofs.Lexical.Reached
import Offside.Proofs.Lexical.Token
import Mathlib.Data.List.TakeWhile

/-!
# The scanner follows the grammar

The scanner reads one character at a time, with a count of characters to skip and a flag for a
pending end; the lexer cuts whole tokens.  Both see the same strings, comments and brackets.

* `Scanner.readN`: reading a number of characters;
* `stays_string`, `stays_comment`, `reads_firstToken`: the scanner inside and after a token;
* `stateAfter`, `state_readN`: the state at any place, computed from the tokens;
* `classify_matches_tokens`: the state at an offset, described by the tokens around it.
-/

namespace Offside.Lexical

open Text (size)

theorem fenceAt_single_cons (q c : Char) (after : Text) :
    fenceAt q .single (c :: after) = (q == c) := by
  simp [fenceAt, Fence.length, List.isPrefixOf]

theorem fenceAt_triple_cons (q c : Char) (after : Text) :
    fenceAt q .triple (c :: after) = (q == c && opensTriple q after) := by
  cases after with
  | nil => simp [fenceAt, Fence.length, opensTriple, List.replicate, List.isPrefixOf]
  | cons d rest =>
    cases rest with
    | nil => simp [fenceAt, Fence.length, opensTriple, List.replicate, List.isPrefixOf]
    | cons e rest =>
      simp [fenceAt, Fence.length, opensTriple, List.replicate, List.isPrefixOf,
        Bool.beq_comm (a := q)]

namespace Scanner

/-- The scanner after `n` characters of a text, or at its end. -/
def readN (before : Text) : Nat → Text → Scanner → Scanner
  | 0, _, s => s
  | _ + 1, [], s => s
  | n + 1, c :: cs, s => readN (c :: before) n cs (s.step before c cs)

@[simp] theorem readN_zero (before t : Text) (s : Scanner) : s.readN before 0 t = s := by
  cases t <;> rfl

@[simp] theorem readN_succ_cons (before cs : Text) (c : Char) (n : Nat) (s : Scanner) :
    s.readN before (n + 1) (c :: cs) = (s.step before c cs).readN (c :: before) n cs := rfl

theorem read_take (before t : Text) (n : Nat) (s : Scanner) :
    s.read before (t.take n) (t.drop n) = s.readN before n t := by
  induction n generalizing before t s with
  | zero => simp
  | succ n ih =>
    cases t with
    | nil => rfl
    | cons c cs =>
      rw [List.take_succ_cons, List.drop_succ_cons, read_cons, List.take_append_drop, ih,
        readN_succ_cons]

theorem readN_add (before t : Text) (m n : Nat) (s : Scanner) :
    s.readN before (m + n) t =
      (s.readN before m t).readN ((t.take m).reverse ++ before) n (t.drop m) := by
  induction m generalizing before t s with
  | zero => simp
  | succ m ih =>
    cases t with
    | nil => cases n <;> simp [readN]
    | cons c cs => simp [Nat.succ_add, ih]

/-- A scanner between tokens, with given open brackets. -/
def Between (parens : List Nat) (s : Scanner) : Prop :=
  s.state = ⟨.code, parens⟩ ∧ s.skip = 0 ∧ s.closePending = false

/-- A scanner between the characters of an open string. -/
def InString (o : OpenString) (parens : List Nat) (s : Scanner) : Prop :=
  s.state = ⟨.string o, parens⟩ ∧ s.skip = 0 ∧ s.closePending = false

section Steps

variable {s : Scanner} {o : OpenString} {parens : List Nat} {before after : Text} {c : Char}

theorem InString.step_backslash (h : s.InString o parens) :
    s.step before '\\' after = { s.moved '\\' with skip := escapeLength after } := by
  rw [step_of_string h.2.1 (by rw [h.1]), stepString, if_pos rfl]

theorem InString.step_newline (h : s.InString o parens) (ho : o.fence = .single) :
    (s.step before '\n' after).Between parens := by
  rw [step_of_string h.2.1 (by rw [h.1]), stepString, if_neg (by decide), if_pos ⟨rfl, ho⟩]
  exact ⟨by simp [enter, h.1], h.2⟩

theorem InString.step_quote (h : s.InString o parens) (ho : o.fence = .single)
    (hq : IsQuote o.quote) : (s.step before o.quote after).Between parens := by
  rw [step_of_string h.2.1 (by rw [h.1]), stepString, if_neg, if_neg, if_pos rfl, ho]
  · exact ⟨by simp [enter, h.1], h.2⟩
  · rintro ⟨e, -⟩
    rcases hq with hq | hq <;> rw [hq] at e <;> cases e
  · intro e
    rcases hq with hq | hq <;> rw [hq] at e <;> cases e

/-- A character that neither escapes nor ends anything stays in the string. -/
theorem InString.step_other (h : s.InString o parens) (hb : c = '\\' → after = [])
    (hn : ¬ (c = '\n' ∧ o.fence = .single)) (hq : fenceAt o.quote o.fence (c :: after) = false) :
    (s.step before c after).InString o parens := by
  rw [step_of_string h.2.1 (by rw [h.1]), stepString, if_neg hn]
  split
  · next e =>
    rw [hb e]
    exact ⟨h.1, rfl, h.2.2⟩
  split
  · next e =>
    subst e
    cases hf : o.fence with
    | single => simp [hf, fenceAt_single_cons] at hq
    | triple =>
      have ht : opensTriple o.quote after = false := by
        simpa [hf, fenceAt_triple_cons] using hq
      simp only [ht]
      exact h
  · exact h

/-- Characters of an escape or an opening fence leave the state alone. -/
theorem readN_skip (before : Text) {n k : Nat} {t : Text} (hs : s.skip = n)
    (hc : s.closePending = false) (hn : n ≤ t.length) (hk : k ≤ n) :
    (s.readN before k t).state = s.state ∧ (s.readN before k t).skip = n - k ∧
      (s.readN before k t).closePending = false := by
  induction k generalizing s before n t with
  | zero => simp [hs, hc]
  | succ k ih =>
    obtain ⟨c, cs, rfl⟩ : ∃ c cs, t = c :: cs :=
      List.exists_cons_of_ne_nil (by rintro rfl; simp at hn; omega)
    have hstep : s.step before c cs = { s.moved c with skip := n - 1 } := by
      rw [step_of_skip (by omega), stepToken]
      simp [hs, hc]
    rw [readN_succ_cons, hstep]
    obtain ⟨hstate, hskip, hpending⟩ :=
      ih (c :: before) (s := { s.moved c with skip := n - 1 }) (n := n - 1) (t := cs) rfl hc
        (by simp at hn; omega) (by omega)
    refine ⟨hstate, ?_, hpending⟩
    rw [hskip]
    omega

end Steps

/-! ### Inside a token -/

/-- The scanner is in state `z` over `r.1` characters, and between tokens after the last of them; if
there is no end it is still in state `z` there. -/
def Stays (z : State) (r : Nat × Bool) (before t : Text) (s : Scanner) : Prop :=
  (∀ k, k < r.1 ∨ k = r.1 ∧ r.2 = false → (s.readN before k t).state = z) ∧
    (r.2 = true → (s.readN before r.1 t).Between z.parens)

section Stays

variable {z : State} {r : Nat × Bool} {before t : Text} {s : Scanner} {n : Nat}

theorem Stays.longer (hn : ∀ k, k < n → (s.readN before k t).state = z)
    (h : (s.readN before n t).Stays z r ((t.take n).reverse ++ before) (t.drop n)) :
    s.Stays z (longer n r) before t := by
  refine ⟨fun k hk => ?_, fun hr => ?_⟩
  · rcases Nat.lt_or_ge k n with hlt | hge
    · exact hn k hlt
    · obtain ⟨j, rfl⟩ := Nat.exists_eq_add_of_le hge
      rw [readN_add]
      apply h.1 j
      simp only [Lexical.longer] at hk
      exact hk.imp (by omega) (And.imp_left (by omega))
  · rw [Lexical.longer, readN_add]
    exact h.2 hr

theorem Stays.closed (hn : ∀ k, k < n → (s.readN before k t).state = z)
    (h : (s.readN before n t).Between z.parens) : s.Stays z (n, true) before t :=
  ⟨fun k hk => hn k (by simpa using hk), fun _ => h⟩

theorem Stays.nil (h : s.state = z) : s.Stays z (0, false) before t := by
  refine ⟨fun k hk => ?_, fun hr => by cases hr⟩
  obtain rfl : k = 0 := by omega
  simpa using h

end Stays

/-- A comment lasts up to its line feed. -/
theorem stays_comment {start : Nat} {parens : List Nat} (t before : Text) (s : Scanner)
    (hz : s.state = ⟨.comment start, parens⟩) (hs : s.skip = 0) (hc : s.closePending = false) :
    s.Stays ⟨.comment start, parens⟩ (commentLength t) before t := by
  induction t generalizing before s with
  | nil => exact Stays.nil hz
  | cons c cs ih =>
    have hstep : s.step before c cs = if c = '\n' then (s.moved c).enter .code else s.moved c :=
      step_of_comment hs (by rw [hz])
    have hfirst : ∀ k, k < 1 → (s.readN before k (c :: cs)).state = ⟨.comment start, parens⟩ := by
      intro k hk
      obtain rfl : k = 0 := by omega
      simpa using hz
    rw [commentLength]
    split
    · next hn =>
      rw [if_pos hn] at hstep
      refine Stays.closed hfirst ?_
      rw [readN_succ_cons, readN_zero, hstep]
      exact ⟨by simp [enter, hz], hs, hc⟩
    · next hn =>
      rw [if_neg hn] at hstep
      refine Stays.longer hfirst ?_
      rw [readN_succ_cons, readN_zero, hstep]
      exact ih _ _ hz hs hc

/-- An escape stays in the string. -/
theorem stays_escape {o : OpenString} {parens : List Nat} {r : Nat × Bool} {before t : Text}
    {s : Scanner} {n : Nat} (h : s.InString o parens) (he : escapeLength t = n)
    (hn : n ≤ t.length)
    (ih : ∀ before (s : Scanner), s.InString o parens →
      s.Stays ⟨.string o, parens⟩ r before (t.drop n)) :
    s.Stays ⟨.string o, parens⟩ (longer (n + 1) r) before ('\\' :: t) := by
  have hskip := fun k (hk : k ≤ n) => readN_skip (s := { s.moved '\\' with skip := n })
    ('\\' :: before) (t := t) rfl h.2.2 hn hk
  refine Stays.longer (fun k hk => ?_) ?_
  · cases k with
    | zero => simpa using h.1
    | succ k =>
      rw [readN_succ_cons, h.step_backslash, he, (hskip k (by omega)).1]
      exact h.1
  · rw [readN_succ_cons, h.step_backslash, he, List.drop_succ_cons]
    refine ih _ _ ⟨(hskip n (by omega)).1.trans h.1, ?_, (hskip n (by omega)).2.2⟩
    rw [(hskip n (by omega)).2.1, Nat.sub_self]

/-- A closing fence ends the string with its last quote. -/
theorem stays_fence {q : Char} {f : Fence} {start : Nat} {parens : List Nat} {before cs : Text}
    {c : Char} {s : Scanner} (hq : IsQuote q) (h : s.InString ⟨q, f, start⟩ parens)
    (hf : fenceAt q f (c :: cs) = true) :
    s.Stays ⟨.string ⟨q, f, start⟩, parens⟩ (f.length, true) before (c :: cs) := by
  cases f with
  | single =>
    obtain rfl : q = c := by simpa [fenceAt_single_cons] using hf
    refine Stays.closed (fun k hk => ?_) ?_
    · obtain rfl : k = 0 := by simp only [Fence.length] at hk; omega
      simpa using h.1
    · rw [Fence.length, readN_succ_cons, readN_zero]
      exact h.step_quote rfl hq
  | triple =>
    rw [fenceAt_triple_cons, Bool.and_eq_true, beq_iff_eq] at hf
    obtain ⟨rfl, ht⟩ := hf
    obtain ⟨rest, rfl⟩ : ∃ rest, cs = q :: q :: rest := by
      rw [opensTriple, beq_iff_eq] at ht
      exact ⟨cs.drop 2, by rw [← List.take_append_drop 2 cs, ht]; rfl⟩
    have h1 : s.step before q (q :: q :: rest) =
        { s.moved q with skip := 2, closePending := true } := by
      have hne : ¬ q = '\\' ∧ ¬ (q = '\n' ∧ Fence.triple = .single) := by
        constructor
        · rintro rfl
          exact absurd hq (by decide)
        · rintro ⟨-, hcon⟩
          cases hcon
      rw [step_of_string h.2.1 (by rw [h.1]), stepString, if_neg hne.1, if_neg hne.2, if_pos rfl]
      simp [ht]
    have h2 : ({ s.moved q with skip := 2, closePending := true } : Scanner).step (q :: before) q
        (q :: rest) = { (s.moved q).moved q with skip := 1, closePending := true } := by
      rw [step_of_skip (by simp)]
      rfl
    refine Stays.closed (fun k hk => ?_) ?_
    · obtain rfl | rfl | rfl : k = 0 ∨ k = 1 ∨ k = 2 := by simp only [Fence.length] at hk; omega
      · simpa using h.1
      · rw [readN_succ_cons, readN_zero, h1]
        exact h.1
      · rw [readN_succ_cons, readN_succ_cons, readN_zero, h1, h2]
        exact h.1
    · rw [Fence.length, readN_succ_cons, readN_succ_cons, readN_succ_cons, readN_zero, h1, h2,
        step_of_skip (by simp)]
      exact ⟨by simp [stepToken, enter, h.1], rfl, rfl⟩

/-- A string lasts up to its closing fence, or to a line feed if the fence is single. -/
theorem stays_string {q : Char} {f : Fence} {start : Nat} {parens : List Nat} (hq : IsQuote q)
    (t before : Text) (s : Scanner) (h : s.InString ⟨q, f, start⟩ parens) :
    s.Stays ⟨.string ⟨q, f, start⟩, parens⟩ (stringLength q f t) before t := by
  fun_induction stringLength q f t generalizing before s with
  | case1 => exact Stays.nil h.1
  | case2 cs ih => exact stays_escape h (t := '\r' :: '\n' :: cs) rfl (by simp) ih
  | case3 c cs hne ih =>
    refine stays_escape h (t := c :: cs) ?_ (by simp) ih
    cases cs with
    | nil => simp [escapeLength]
    | cons d cs => simp_all [escapeLength]
  | case4 c cs hb hb' hf => exact stays_fence hq h hf
  | case5 c cs hb hb' hf hn =>
    obtain ⟨rfl, rfl⟩ := hn
    refine Stays.closed (fun k hk => ?_) ?_
    · obtain rfl : k = 0 := by omega
      simpa using h.1
    · simpa using h.step_newline rfl
  | case6 c cs hb hb' hf hn ih =>
    have hlast : c = '\\' → cs = [] := by
      rintro rfl
      cases cs with
      | nil => rfl
      | cons d cs => exact absurd rfl (hb' d cs rfl)
    refine Stays.longer (n := 1) (fun k hk => ?_) ?_
    · obtain rfl : k = 0 := by omega
      simpa using h.1
    · rw [readN_succ_cons, readN_zero]
      exact ih _ _ (h.step_other hlast hn (by simpa using hf))

end Scanner

/-! ### Token by token -/

theorem commentLength_le (t : Text) :
    (commentLength t).1 ≤ t.length ∧
      ((commentLength t).2 = false → (commentLength t).1 = t.length) := by
  induction t with
  | nil => simp [commentLength]
  | cons c cs ih =>
    rw [commentLength]
    split
    · simp
    · simp only [longer, List.length_cons]
      exact ⟨by omega, fun h => by have := ih.2 h; omega⟩

theorem stringLength_le (q : Char) (f : Fence) (t : Text) :
    (stringLength q f t).1 ≤ t.length ∧
      ((stringLength q f t).2 = false → (stringLength q f t).1 = t.length) := by
  fun_induction stringLength q f t with
  | case1 => simp
  | case2 cs ih =>
    simp only [longer, List.length_cons]
    exact ⟨by omega, fun h => by have := ih.2 h; omega⟩
  | case3 c cs hne ih =>
    simp only [longer, List.length_cons]
    exact ⟨by omega, fun h => by have := ih.2 h; omega⟩
  | case4 c cs hb hb' hf =>
    have := (List.isPrefixOf_iff_prefix.1 hf).length_le
    simpa using this
  | case5 c cs hb hb' hf hn => simp
  | case6 c cs hb hb' hf hn ih =>
    simp only [longer, List.length_cons]
    exact ⟨by omega, fun h => by have := ih.2 h; omega⟩

/-- The zone inside a token after the text `before`, which is read backwards. -/
def Token.zone (before : Text) : Token → Zone
  | .comment _ _ => .comment (size before)
  | .string quote fence _ _ => .string ⟨quote, fence, stringStart before (size before)⟩
  | .code _ => .code

/-- What the scanner makes of a token: inside it is in the token's zone, and after a closed token it
is between tokens again. -/
structure Reads (before : Text) (parens : List Nat) (k : Token) (t : Text) (s : Scanner) : Prop where
  inside : ∀ n, 0 < n → n < k.text.length ∨ n = k.text.length ∧ k.closed = false →
    (s.readN before n t).state = ⟨k.zone before, parens⟩
  after : k.closed = true →
    (s.readN before k.text.length t).Between (bracketStep parens (size before, k))
  rest : k.closed = false → k.text.length = t.length

section FirstToken

variable {before cs : Text} {parens : List Nat} {c : Char} {s : Scanner}

/-- A token whose first `m` characters lead into a stretch that stays in the token's zone. -/
theorem reads_of_stays {k : Token} {t : Text} {m : Nat} {r : Nat × Bool}
    (hlen : k.text.length = m + r.1) (hclosed : k.closed = r.2)
    (hb : bracketStep parens (size before, k) = parens)
    (hr : r.1 ≤ (t.drop m).length ∧ (r.2 = false → r.1 = (t.drop m).length)) (hmt : m ≤ t.length)
    (hfirst : ∀ n, 0 < n → n < m → (s.readN before n t).state = ⟨k.zone before, parens⟩)
    (h : (s.readN before m t).Stays ⟨k.zone before, parens⟩ r ((t.take m).reverse ++ before)
      (t.drop m)) :
    Reads before parens k t s where
  inside n hn hin := by
    rcases Nat.lt_or_ge n m with hlt | hge
    · exact hfirst n hn hlt
    · obtain ⟨j, rfl⟩ := Nat.exists_eq_add_of_le hge
      rw [Scanner.readN_add]
      apply h.1 j
      rw [hlen, hclosed] at hin
      exact hin.imp (by omega) (And.imp_left (by omega))
  after hc := by
    rw [hlen, Scanner.readN_add, hb]
    exact h.2 (hclosed ▸ hc)
  rest hc := by
    have := hr.2 (hclosed ▸ hc)
    rw [hlen, this, List.length_drop]
    omega

theorem reads_comment (h : s.Between parens) (ho : s.offset = size before) :
    Reads before parens (.comment ('#' :: cs.take (commentLength cs).1) (commentLength cs).2)
      ('#' :: cs) s := by
  have hle := commentLength_le cs
  have hstep : s.step before '#' cs = (s.moved '#').enter (.comment (size before)) := by
    rw [Scanner.step_of_code h.2.1 (by rw [h.1]), Scanner.stepCode, if_pos rfl, ho]
  refine reads_of_stays (m := 1) ?_ rfl rfl hle (by simp) (by omega) ?_
  · simp only [Token.text, List.length_cons, List.length_take]
    omega
  · rw [Scanner.readN_succ_cons, Scanner.readN_zero, hstep]
    exact Scanner.stays_comment cs _ _ (by simp [Scanner.enter, h.1]) h.2.1 h.2.2

theorem openingFence_length (q : Char) (t : Text) (ht : t ≠ []) :
    0 < (openingFence q t).length ∧ (openingFence q t).length ≤ t.length := by
  unfold openingFence
  split
  · next h =>
    have := (List.isPrefixOf_iff_prefix.1 h).length_le
    exact ⟨by simp [Fence.length], by simpa using this⟩
  · exact ⟨by simp [Fence.length], List.length_pos_iff.2 ht⟩

/-- A quote in code opens a string, of whose fence the other quotes are still to be read. -/
theorem step_openingFence (cs : Text) (hq : IsQuote c) (h : s.Between parens)
    (ho : s.offset = size before) :
    (s.step before c cs).state =
        ⟨.string ⟨c, openingFence c (c :: cs), stringStart before (size before)⟩, parens⟩ ∧
      (s.step before c cs).skip = (openingFence c (c :: cs)).length - 1 ∧
      (s.step before c cs).closePending = false := by
  have hne : c ≠ '#' := by
    rintro rfl
    exact absurd hq (by decide)
  have hfence : openingFence c (c :: cs) = if opensTriple c cs then .triple else .single := by
    rw [openingFence, fenceAt_triple_cons, beq_self_eq_true, Bool.true_and]
  rw [Scanner.step_of_code h.2.1 (by rw [h.1]), Scanner.stepCode, if_neg hne,
    if_pos (show c = '\'' ∨ c = '"' from hq), ho, hfence]
  split
  · exact ⟨by simp [Scanner.enter, h.1], rfl, h.2.2⟩
  · exact ⟨by simp [Scanner.enter, h.1], h.2.1, h.2.2⟩

theorem reads_string (hq : IsQuote c) (h : s.Between parens) (ho : s.offset = size before)
    {f : Fence} (hf : openingFence c (c :: cs) = f) :
    Reads before parens
      (.string c f ((c :: cs).take (f.length + (stringLength c f ((c :: cs).drop f.length)).1))
        (stringLength c f ((c :: cs).drop f.length)).2) (c :: cs) s := by
  have hle := stringLength_le c f ((c :: cs).drop f.length)
  obtain ⟨hpos, hlen⟩ := openingFence_length c (c :: cs) (by simp)
  obtain ⟨hstate, hskip, hpending⟩ := step_openingFence cs hq h ho
  rw [hf] at hpos hlen hstate hskip
  have hread : ∀ n, n < f.length →
      (s.readN before (n + 1) (c :: cs)).state =
          ⟨.string ⟨c, f, stringStart before (size before)⟩, parens⟩ ∧
        (s.readN before (n + 1) (c :: cs)).skip = f.length - 1 - n ∧
        (s.readN before (n + 1) (c :: cs)).closePending = false := by
    intro n hn
    have := Scanner.readN_skip (c :: before) (t := cs) (k := n) hskip hpending
      (by simp only [List.length_cons] at hlen; omega) (by omega)
    rw [Scanner.readN_succ_cons, this.1]
    exact ⟨hstate, this.2⟩
  refine reads_of_stays ?_ rfl rfl hle hlen ?_ ?_
  · simp only [Token.text, List.length_take]
    rw [List.length_drop] at hle
    omega
  · intro n hn hnf
    obtain ⟨j, rfl⟩ : ∃ j, n = j + 1 := ⟨n - 1, by omega⟩
    exact (hread j (by omega)).1
  · obtain ⟨j, hj⟩ : ∃ j, f.length = j + 1 := ⟨f.length - 1, by omega⟩
    have hj' := hread j (by omega)
    rw [← hj] at hj'
    exact Scanner.stays_string hq _ _ _ ⟨hj'.1, by rw [hj'.2.1]; omega, hj'.2.2⟩

theorem reads_code (hc : c ≠ '#') (hq : ¬ IsQuote c) (h : s.Between parens)
    (ho : s.offset = size before) : Reads before parens (.code c) (c :: cs) s where
  inside n hn hin := by
    rcases hin with hin | ⟨-, hin⟩
    · rw [Token.text, List.length_singleton] at hin
      omega
    · cases hin
  after _ := by
    rw [Token.text, List.length_singleton, Scanner.readN_succ_cons, Scanner.readN_zero,
      Scanner.step_of_code h.2.1 (by rw [h.1]), Scanner.stepCode, if_neg hc,
      if_neg (show ¬ (c = '\'' ∨ c = '"') from hq), ho]
    unfold bracketStep
    simp only [List.contains_cons, List.contains_nil, Bool.or_false, Bool.or_eq_true, beq_iff_eq]
    split
    · exact ⟨by simp [h.1], h.2⟩
    · split
      · exact ⟨by simp [h.1], h.2⟩
      · exact h
  rest hcl := by cases hcl

/-- What the scanner makes of the first token of a text. -/
theorem reads_firstToken (h : s.Between parens) (ho : s.offset = size before) :
    Reads before parens (firstToken c cs) (c :: cs) s := by
  unfold firstToken
  split
  · next hc =>
    subst hc
    exact reads_comment h ho
  split
  · next hq => exact reads_string hq h ho rfl
  · next hc hq => exact reads_code hc hq h ho

end FirstToken

/-! ### The state at a place -/

/-- The state after `n` bytes of tokens that stand after `before`, read backwards, with given
brackets open. -/
def stateAfter (before : Text) (parens : List Nat) : List Token → Nat → State
  | [], _ => ⟨.code, parens⟩
  | k :: ks, n =>
    if n = 0 then ⟨.code, parens⟩
    else if Covers 0 k n then ⟨k.zone before, parens⟩
    else
      stateAfter (k.text.reverse ++ before) (bracketStep parens (size before, k)) ks
        (n - size k.text)

/-- The state that the scanner is in at any place is the one that the tokens give. -/
theorem state_readN (t before : Text) (parens : List Nat) (s : Scanner) (n : Nat)
    (h : s.Between parens) (ho : s.offset = size before) (hn : n ≤ t.length) :
    (s.readN before n t).state = stateAfter before parens (lex t) (size (t.take n)) := by
  fun_induction lex t generalizing before parens s n with
  | case1 =>
    obtain rfl : n = 0 := by simpa using hn
    exact h.1
  | case2 c cs ih =>
    have hreads : Reads before parens (firstToken c cs) (c :: cs) s := reads_firstToken h ho
    have htext := firstToken_text_append c cs
    generalize firstToken c cs = k at *
    generalize (c :: cs).drop k.text.length = x at *
    rw [← htext] at hreads hn ⊢
    rw [stateAfter]
    rcases Nat.eq_zero_or_pos n with rfl | hpos
    · simpa using h.1
    have hsize : 0 < size ((k.text ++ x).take n) := by
      rw [Text.size_pos_iff, ne_eq, List.take_eq_nil_iff, not_or]
      exact ⟨by omega, by simp [htext]⟩
    rw [if_neg (by omega)]
    by_cases hin : n < k.text.length ∨ n = k.text.length ∧ k.closed = false
    · rw [if_pos, hreads.inside n hpos hin]
      refine ⟨hsize, ?_⟩
      rcases hin with hlt | ⟨rfl, hc⟩
      · exact .inl (by simpa using Text.size_take_lt hlt x)
      · exact .inr ⟨by simp, hc⟩
    · -- the place lies behind the token, which is then closed
      rw [not_or, Nat.not_lt] at hin
      obtain ⟨m, rfl⟩ := Nat.exists_eq_add_of_le hin.1
      have hc : k.closed = true := by
        by_contra hc
        have := hreads.rest (by simpa using hc)
        rw [List.length_append] at this hn
        exact hin.2 ⟨by omega, by simpa using hc⟩
      rw [Text.size_take_add, if_neg, Nat.add_sub_cancel_left, Scanner.readN_add,
        List.take_left' rfl, List.drop_left' rfl]
      · refine ih _ _ _ m (hreads.after hc) ?_ (by simpa using hn)
        rw [← Scanner.read_take, List.take_left' rfl, List.drop_left' rfl, Scanner.read_offset, ho]
        simp [Nat.add_comm]
      · rintro ⟨-, hlt | ⟨-, hopen⟩⟩
        · omega
        · rw [hc] at hopen
          cases hopen

/-! ### Tokens around an offset -/

theorem le_of_mem_placed {start : Nat} {ks : List Token} {p : Nat × Token}
    (h : p ∈ placed start ks) : start ≤ p.1 ∧ p.2 ∈ ks := by
  induction ks generalizing start with
  | nil => cases h
  | cons k ks ih =>
    rcases List.mem_cons.1 h with rfl | h
    · exact ⟨Nat.le_refl _, List.mem_cons_self⟩
    · have := ih h
      exact ⟨by omega, List.mem_cons_of_mem k this.2⟩

theorem size_takeBytes_of_mem_placed {t before : Text} {ks : List Token} {p : Nat × Token}
    (ht : t = before.reverse ++ (ks.map Token.text).flatten) (h : p ∈ placed (size before) ks) :
    size (t.takeBytes p.1) = p.1 := by
  induction ks generalizing before with
  | nil => cases h
  | cons k ks ih =>
    rcases List.mem_cons.1 h with rfl | h
    · rw [ht, ← Text.size_reverse before, Text.takeBytes_size]
    · have ht' : t = (k.text.reverse ++ before).reverse ++ (ks.map Token.text).flatten := by
        simpa using ht
      refine ih ht' ?_
      rwa [Text.size_reverse_append]

/-- An offset that a token covers lies up to its end. -/
theorem Covers.le_size {k : Token} {n : Nat} (h : Covers 0 k n) : n ≤ size k.text := by
  rcases h.2 with h | ⟨h, -⟩ <;> omega

/-- An offset that the first token does not cover lies behind it. -/
theorem size_le_of_not_covers {k : Token} {n : Nat} (hn : n ≠ 0) (h : ¬ Covers 0 k n) :
    size k.text ≤ n := by
  by_contra hlt
  exact h ⟨by omega, .inl (by omega)⟩

/-- The tokens behind an offset do not cover it. -/
theorem not_covers_of_le {start offset : Nat} {k : Token} (h : offset ≤ start) :
    ¬ Covers start k offset := fun hc => Nat.not_lt.2 h hc.1

theorem covers_add_left (m n : Nat) (k : Token) : Covers m k (m + n) ↔ Covers 0 k n := by
  unfold Covers
  rw [Nat.zero_add, Nat.add_lt_add_iff_left, Nat.add_left_cancel_iff, Nat.lt_add_right_iff_pos]

/-- The zone at a place is that of the token that covers it. -/
theorem stateAfter_zone_iff {t before : Text} {ks : List Token}
    (ht : t = before.reverse ++ (ks.map Token.text).flatten) (parens : List Nat) (n : Nat)
    {z : Zone} (hz : z ≠ .code) :
    (stateAfter before parens ks n).zone = z ↔
      ∃ p ∈ placed (size before) ks, Covers p.1 p.2 (size before + n) ∧
        p.2.zone (t.takeBytes p.1).reverse = z := by
  induction ks generalizing before parens n with
  | nil => simpa [stateAfter, placed] using fun h => hz h.symm
  | cons k ks ih =>
    have htake : (t.takeBytes (size before)).reverse = before := by
      rw [ht, ← Text.size_reverse before, Text.takeBytes_size, List.reverse_reverse]
    rw [stateAfter]
    split
    · next h0 =>
      -- before the first token nothing is covered
      subst h0
      refine ⟨fun h => absurd h.symm hz, ?_⟩
      rintro ⟨p, hp, hc, -⟩
      exact absurd hc (not_covers_of_le (le_of_mem_placed hp).1)
    split
    · next h0 hc =>
      constructor
      · intro h
        exact ⟨(size before, k), List.mem_cons_self, (covers_add_left _ _ k).2 hc,
          by rw [htake]; exact h⟩
      · rintro ⟨p, hp, hcp, hzp⟩
        rcases List.mem_cons.1 hp with rfl | hp
        · rwa [htake] at hzp
        · have hle := (le_of_mem_placed hp).1
          have hn := hc.le_size
          exact absurd hcp (not_covers_of_le (by omega))
    · next h0 hc =>
      have hn := size_le_of_not_covers h0 hc
      have hsize := Text.size_reverse_append k.text before
      have ht' : t = (k.text.reverse ++ before).reverse ++ (ks.map Token.text).flatten := by
        simpa using ht
      rw [ih ht', hsize,
        show size before + size k.text + (n - size k.text) = size before + n by omega]
      constructor
      · rintro ⟨p, hp, h⟩
        exact ⟨p, List.mem_cons_of_mem _ hp, h⟩
      · rintro ⟨p, hp, hcp, hzp⟩
        rcases List.mem_cons.1 hp with rfl | hp
        · exact absurd ((covers_add_left _ _ k).1 hcp) hc
        · exact ⟨p, hp, hcp, hzp⟩

theorem bracketStep_of_not_closed {parens : List Nat} {p : Nat × Token}
    (h : p.2.closed = false) : bracketStep parens p = parens := by
  obtain ⟨a, k⟩ := p
  cases k with
  | comment text closed => rfl
  | string quote fence text closed => rfl
  | code c => cases h

theorem filter_placed_eq_nil {start offset : Nat} {ks : List Token}
    (hne : ∀ k ∈ ks, k.text ≠ []) (h : offset ≤ start) :
    (placed start ks).filter (fun p => p.1 + size p.2.text ≤ offset) = [] := by
  rw [List.filter_eq_nil_iff]
  intro p hp
  obtain ⟨hle, hmem⟩ := le_of_mem_placed hp
  have := Text.size_pos_iff.2 (hne p.2 hmem)
  simp only [decide_eq_true_eq]
  omega

/-- The brackets that are open at a place are those that the tokens before it leave open. -/
theorem stateAfter_parens {before : Text} {ks : List Token} (hne : ∀ k ∈ ks, k.text ≠ [])
    (parens : List Nat) (n : Nat) :
    (stateAfter before parens ks n).parens =
      ((placed (size before) ks).filter fun p => p.1 + size p.2.text ≤ size before + n).foldl
        bracketStep parens := by
  induction ks generalizing before parens n with
  | nil => rfl
  | cons k ks ih =>
    have hks : ∀ k ∈ ks, k.text ≠ [] := fun q hq => hne q (List.mem_cons_of_mem k hq)
    have hpos := Text.size_pos_iff.2 (hne k List.mem_cons_self)
    rw [stateAfter, placed, List.filter_cons]
    split
    · next h0 =>
      subst h0
      rw [filter_placed_eq_nil hks (by omega), if_neg (by simp only [decide_eq_true_eq]; omega)]
      rfl
    split
    · next h0 hc =>
      have hn := hc.le_size
      rw [filter_placed_eq_nil hks (by omega)]
      -- the token itself counts only if the place is its end, and then it is not closed
      split
      · next hle =>
        rcases hc.2 with hlt | ⟨-, hopen⟩
        · simp only [decide_eq_true_eq] at hle
          omega
        · rw [List.foldl_cons, List.foldl_nil, bracketStep_of_not_closed hopen]
      · rfl
    · next h0 hc =>
      have hn := size_le_of_not_covers h0 hc
      have hsize := Text.size_reverse_append k.text before
      rw [ih hks, hsize, if_pos (by simp only [decide_eq_true_eq]; omega), List.foldl_cons,
        show size before + size k.text + (n - size k.text) = size before + n by omega]

/-! ### Marks before strings -/

theorem utf8Size_of_isMarkChar {c : Char} (h : isMarkChar c = true) : c.utf8Size = 1 := by
  have hle : c.val ≤ 127 := by
    have hchar : ((decide (c.val ≥ 'A'.val ∧ c.val ≤ 'Z'.val) ||
        (decide (c.val ≥ 'a'.val) && decide (c.val ≤ 'z'.val))) ||
          (decide (c.val ≥ '0'.val) && decide (c.val ≤ '9'.val)) || c == '_') = true := h
    simp only [Bool.or_eq_true, Bool.and_eq_true, decide_eq_true_eq, beq_iff_eq] at hchar
    rcases hchar with ((⟨-, hle⟩ | ⟨-, hle⟩) | ⟨-, hle⟩) | rfl
    · exact UInt32.le_trans hle (by decide)
    · exact UInt32.le_trans hle (by decide)
    · exact UInt32.le_trans hle (by decide)
    · decide
  exact Char.utf8Size_eq_one_iff.2 hle

/-- A word read backwards qualifies a string exactly if it is one of the marks. -/
theorem any_stringMarks (word : Text) :
    (stringMarks.any fun m => m.toList == word.reverse.map Char.toLower) = isStringMark word := by
  rw [Bool.eq_iff_iff]
  match word with
  | [] => simp [stringMarks, isStringMark]
  | [a] =>
    simp only [stringMarks, isStringMark, List.any_cons, List.any_nil, List.contains_cons]
    simp [eq_comm (b := Char.toLower _)]
  | [b, a] =>
    simp only [stringMarks, isStringMark, List.any_cons, List.any_nil, List.contains_cons]
    simp [eq_comm (b := Char.toLower _)]
    grind
  | c :: b :: a :: rest =>
    simp only [isStringMark, Bool.false_eq_true, iff_false, List.any_eq_true, beq_iff_eq,
      not_exists, not_and]
    intro m hm heq
    have hlen : ∀ m ∈ stringMarks, m.toList.length ≤ 2 := by decide
    have := hlen m hm
    rw [heq] at this
    simp at this

theorem size_of_isMarkChar {t : Text} (h : ∀ c ∈ t, isMarkChar c = true) : size t = t.length :=
  Text.size_eq_length fun c hc => utf8Size_of_isMarkChar (h c hc)

/-- The start of a string as the scanner and the grammar have it. -/
theorem markedStart_reverse (before : Text) :
    markedStart before.reverse = stringStart before (size before) := by
  have hsize : size (before.takeWhile isMarkChar) = (before.takeWhile isMarkChar).length :=
    size_of_isMarkChar fun c hc => List.mem_takeWhile_imp hc
  simp only [markedStart, lastWord, stringStart, List.reverse_reverse, any_stringMarks,
    Text.size_reverse, hsize]

/-! ### The main statement -/

theorem State.string?_eq_some {s : State} {o : OpenString} :
    s.string? = some o ↔ s.zone = .string o := by
  unfold State.string?
  cases s.zone <;> simp

theorem State.comment?_eq_some {s : State} {n : Nat} :
    s.comment? = some n ↔ s.zone = .comment n := by
  unfold State.comment?
  cases s.zone <;> simp

/-- The state at an offset is the one that the tokens of the text give. -/
theorem classify_eq_stateAfter (t : Text) (n : Nat) :
    classify t n = stateAfter [] [] (lex t) (t.floorBoundary n) := by
  have hpre : t.takeBytes n <+: t := ⟨t.dropBytes n, Text.takeBytes_append_dropBytes n t⟩
  have htake : t.take (t.takeBytes n).length = t.takeBytes n := (List.prefix_iff_eq_take.1 hpre).symm
  have hdrop : t.drop (t.takeBytes n).length = t.dropBytes n := by
    have hjoin := List.take_append_drop (t.takeBytes n).length t
    rw [htake] at hjoin
    exact List.append_cancel_left (hjoin.trans (Text.takeBytes_append_dropBytes n t).symm)
  have h := state_readN t [] [] {} (t.takeBytes n).length ⟨rfl, rfl, rfl⟩ rfl hpre.length_le
  rw [← Scanner.read_take, htake, hdrop, ← Scanner.ofOffset_eq_read] at h
  exact h

/-- **The scanner follows the grammar.**  The tokens of a text join to it, and at every offset,
rounded down to a boundary: the scanner is in a string exactly inside a string token, with its quote
and fence and with its start at the mark before it; in a comment exactly inside a comment token; and
the open brackets are those that the tokens before the offset leave open. -/
theorem classify_matches_tokens (t : Text) (n : Nat) :
    ((lex t).map Token.text).flatten = t ∧
    (∀ quote fence start, (classify t n).string? = some ⟨quote, fence, start⟩ ↔
      ∃ a text closed, (a, Token.string quote fence text closed) ∈ placed 0 (lex t) ∧
        Covers a (.string quote fence text closed) (t.floorBoundary n) ∧
        start = markedStart (t.takeBytes a)) ∧
    (∀ start, (classify t n).comment? = some start ↔
      ∃ text closed, (start, Token.comment text closed) ∈ placed 0 (lex t) ∧
        Covers start (.comment text closed) (t.floorBoundary n)) ∧
    (classify t n).parens = openBrackets
      ((placed 0 (lex t)).filter fun p => p.1 + size p.2.text ≤ t.floorBoundary n) := by
  have hjoin := flatten_lex t
  have ht : t = ([] : Text).reverse ++ ((lex t).map Token.text).flatten := by simp [hjoin]
  refine ⟨hjoin, ?_, ?_, ?_⟩
  · intro quote fence start
    rw [State.string?_eq_some, classify_eq_stateAfter, stateAfter_zone_iff ht [] _ (by simp)]
    simp only [Text.size_nil, Nat.zero_add]
    constructor
    · rintro ⟨⟨a, k⟩, hp, hc, hz⟩
      cases k with
      | comment text closed => cases hz
      | code c => cases hz
      | string q f text closed =>
        cases hz
        exact ⟨a, text, closed, hp, hc, by rw [← markedStart_reverse, List.reverse_reverse]⟩
    · rintro ⟨a, text, closed, hp, hc, rfl⟩
      refine ⟨_, hp, hc, ?_⟩
      rw [Token.zone, ← markedStart_reverse, List.reverse_reverse]
  · intro start
    rw [State.comment?_eq_some, classify_eq_stateAfter, stateAfter_zone_iff ht [] _ (by simp)]
    simp only [Text.size_nil, Nat.zero_add]
    constructor
    · rintro ⟨⟨a, k⟩, hp, hc, hz⟩
      have hsize : size (t.takeBytes a) = a := size_takeBytes_of_mem_placed ht hp
      cases k with
      | string q f text closed => cases hz
      | code c => cases hz
      | comment text closed =>
        rw [Token.zone, Text.size_reverse, hsize] at hz
        cases hz
        exact ⟨text, closed, hp, hc⟩
    · rintro ⟨text, closed, hp, hc⟩
      refine ⟨_, hp, hc, ?_⟩
      rw [Token.zone, Text.size_reverse, size_takeBytes_of_mem_placed ht hp]
  · rw [classify_eq_stateAfter, stateAfter_parens fun k hk => text_ne_nil_of_mem_lex hk]
    simp [openBrackets]

end Offside.Lexical
