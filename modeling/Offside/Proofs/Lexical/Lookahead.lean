import Offside.Proofs.Lexical.Reached
import Offside.Proofs.Text.Rows

/-!
# How far a scanner looks ahead

A step looks at the two characters after the one that it reads, and at the second of them only if
the first is a quote or a carriage return.  Two texts that agree so far give the same step, and what
follows a line feed never counts.

* `SameLook`: two texts that no step can tell apart when it looks ahead;
* `step_congr`, `read_congr`: steps and readings before such texts are the same;
* `read_newline_congr`, `codeChars_newline_congr`: a reading that ends with a line feed does not
  depend on what follows;
* `Scanner.ofOffset_congr`, `codeChars_congr`: nor does what is read off whole lines.
-/

namespace Offside.Lexical

open Text (size)

/-- Two texts that look the same to a step of the scanner right before them. -/
def SameLook (x y : Text) : Prop :=
  x.head? = y.head? ∧ (x.take 2 = y.take 2 ∨ ∃ c, x.head? = some c ∧ ¬ IsQuote c ∧ c ≠ '\r')

namespace SameLook

variable {x y : Text}

theorem cons (h : SameLook x y) (c : Char) : SameLook (c :: x) (c :: y) := by
  refine ⟨rfl, .inl ?_⟩
  have h1 := h.1
  cases x <;> cases y <;> simp_all

theorem append (h : SameLook x y) (p : Text) : SameLook (p ++ x) (p ++ y) := by
  induction p with
  | nil => exact h
  | cons c cs ih => exact ih.cons c

theorem refl (x : Text) : SameLook x x := ⟨rfl, .inl rfl⟩

/-- Nothing past a character counts that is neither a quote nor a carriage return. -/
theorem cons_of_ne {c : Char} (hq : ¬ IsQuote c) (hr : c ≠ '\r') (x y : Text) :
    SameLook (c :: x) (c :: y) :=
  ⟨rfl, .inr ⟨c, rfl, hq, hr⟩⟩

theorem newline (x y : Text) : SameLook ('\n' :: x) ('\n' :: y) :=
  cons_of_ne (by decide) (by decide) x y

/-- Two bytes are enough to tell what a step sees. -/
theorem of_size {q : Text} (hq : 2 ≤ size q) (x y : Text) : SameLook (q ++ x) (q ++ y) := by
  match q, hq with
  | [c], hq =>
    refine ⟨rfl, .inr ⟨c, rfl, ?_, ?_⟩⟩
    · rintro (rfl | rfl) <;> exact absurd hq (by decide)
    · rintro rfl
      exact absurd hq (by decide)
  | c :: d :: cs, _ => exact ⟨rfl, .inl rfl⟩

theorem opensTriple_eq (h : SameLook x y) {c : Char} (hc : IsQuote c) :
    opensTriple c x = opensTriple c y := by
  unfold opensTriple
  rcases h.2 with h2 | ⟨d, hd, hq, -⟩
  · rw [h2]
  · have hne : (d == c) = false := beq_eq_false_iff_ne.2 fun e => hq (e ▸ hc)
    obtain ⟨xs, rfl⟩ : ∃ xs, x = d :: xs := List.head?_eq_some_iff.1 hd
    obtain ⟨ys, rfl⟩ : ∃ ys, y = d :: ys := List.head?_eq_some_iff.1 (h.1 ▸ hd)
    simp [hne]

theorem escapeLength_eq (h : SameLook x y) : escapeLength x = escapeLength y := by
  obtain ⟨h1, h2⟩ := h
  match x, y with
  | [], [] => rfl
  | [], d :: y => cases h1
  | c :: x, [] => cases h1
  | c :: x, d :: y =>
    obtain rfl : c = d := by simpa using h1
    by_cases hc : c = '\r'
    · subst hc
      have h3 : x.take 1 = y.take 1 := by simpa using h2
      match x, y with
      | [], [] => rfl
      | [], d :: y => cases h3
      | c :: x, [] => cases h3
      | c :: x, d :: y =>
        obtain rfl : c = d := by simpa using h3
        by_cases hn : c = '\n'
        · subst hn; rfl
        · simp [escapeLength, hn]
    · simp [escapeLength, hc]

end SameLook

namespace Scanner

variable {before x y : Text} {s : Scanner} {c : Char}

/-- A step looks ahead from a quote for two more, and from a backslash in a string for what it
escapes. -/
theorem step_congr_of_look (h : Reached before s)
    (ht : IsQuote c → opensTriple c x = opensTriple c y)
    (he : s.skip = 0 → (∃ o, s.state.zone = .string o) → c = '\\' →
      escapeLength x = escapeLength y) :
    s.step before c x = s.step before c y := by
  rcases Nat.eq_zero_or_pos s.skip with hs | hs
  · cases hz : s.state.zone with
    | code =>
      rw [step_of_code hs hz, step_of_code hs hz]
      unfold stepCode
      by_cases hq : c = '\'' ∨ c = '"'
      · rw [ht hq]
      · simp only [hq, if_false]
    | string o =>
      rw [step_of_string hs hz, step_of_string hs hz]
      unfold stepString
      by_cases hc : c = '\\'
      · rw [if_pos hc, if_pos hc, he hs ⟨o, hz⟩ hc]
      · rw [if_neg hc, if_neg hc]
        by_cases hq : c = o.quote
        · rw [ht (hq ▸ h.quote o hz)]
        · simp only [hq, if_false]
    | comment start => rw [step_of_comment hs hz, step_of_comment hs hz]
  · rw [step_of_skip hs, step_of_skip hs]

/-- A step is the same before texts that look the same, and a line feed does not look ahead. -/
theorem step_congr (h : Reached before s) (hl : c = '\n' ∨ SameLook x y) :
    s.step before c x = s.step before c y := by
  rcases hl with rfl | hl
  · exact step_congr_of_look h (fun hq => absurd hq (by decide)) fun _ _ hc => absurd hc (by decide)
  · exact step_congr_of_look h hl.opensTriple_eq fun _ _ _ => hl.escapeLength_eq

/-- A reading is the same before texts that look the same. -/
theorem read_congr {p : Text} (h : Reached before s) (hl : SameLook x y) :
    s.read before p x = s.read before p y := by
  induction p generalizing before s with
  | nil => rfl
  | cons c cs ih =>
    rw [read_cons, read_cons, step_congr h (.inr (hl.append cs))]
    exact ih (h.step c (cs ++ y))

/-- A reading that ends with a line feed does not depend on what follows. -/
theorem read_newline_congr {p : Text} (h : Reached before s) (x y : Text) :
    s.read before (p ++ ['\n']) x = s.read before (p ++ ['\n']) y := by
  rw [read_append, read_append, List.singleton_append, List.singleton_append,
    read_congr h (SameLook.newline x y)]
  exact step_congr (h.read ('\n' :: y)) (.inl rfl)

theorem codeChars_of_le {stop : Nat} (h : stop ≤ s.offset) (base : Nat) (before after : Text) :
    s.codeChars stop base before after = [] := by
  cases after with
  | nil => rfl
  | cons c cs => rw [codeChars, if_neg (by omega)]

/-- The code characters up to a line feed do not depend on what follows. -/
theorem codeChars_newline_congr {p : Text} {stop : Nat} (h : Reached before s)
    (hstop : stop ≤ s.offset + size (p ++ ['\n'])) (base : Nat) (x y : Text) :
    s.codeChars stop base before (p ++ ['\n'] ++ x) =
      s.codeChars stop base before (p ++ ['\n'] ++ y) := by
  induction p generalizing before s with
  | nil =>
    have hn : size ['\n'] = Char.utf8Size '\n' := rfl
    simp only [List.nil_append, List.singleton_append, codeChars, step_congr h (.inl rfl) (y := y)]
    rw [codeChars_of_le, codeChars_of_le] <;> rw [step_offset] <;> simpa [hn] using hstop
  | cons c cs ih =>
    have hl : SameLook (cs ++ ['\n'] ++ x) (cs ++ ['\n'] ++ y) := by
      simpa using (SameLook.newline x y).append cs
    have hc := ih (h.step c (cs ++ ['\n'] ++ y)) (by
      rw [step_offset]
      simpa [Nat.add_assoc] using hstop)
    simp only [List.cons_append, codeChars, step_congr h (.inr hl), hc]

/-- Scanning up to an offset of whole lines does not depend on what follows them. -/
theorem ofOffset_congr {p : Text} {n : Nat} (hp : Text.EndsLine p) (hn : n ≤ size p) (x y : Text) :
    ofOffset (p ++ x) n = ofOffset (p ++ y) n := by
  have hq : Text.EndsLine (p.dropBytes n) :=
    Text.EndsLine.of_append (p := p.takeBytes n) (by rwa [Text.takeBytes_append_dropBytes])
  rw [ofOffset_eq_read, ofOffset_eq_read, Text.takeBytes_append_of_le hn,
    Text.takeBytes_append_of_le hn, Text.dropBytes_append_of_le hn, Text.dropBytes_append_of_le hn]
  rcases hq with hq | ⟨q, hq⟩
  · have htake : p.takeBytes n = p := by simpa [hq] using Text.takeBytes_append_dropBytes n p
    rw [hq, htake]
    rcases hp with rfl | ⟨r, rfl⟩
    · rfl
    · exact read_newline_congr Reached.init _ _
  · rw [hq, List.append_assoc, List.append_assoc]
    exact read_congr Reached.init ((SameLook.newline x y).append q)

/-- Every scanner of a text is reached by reading what lies before it. -/
theorem reached_ofOffset (t : Text) (n : Nat) :
    Reached (t.takeBytes n).reverse (ofOffset t n) := by
  rw [ofOffset_eq_read]
  simpa using Reached.init.read (p := t.takeBytes n) (t.dropBytes n)

/-- Code characters stand before the end of the range. -/
theorem offset_lt_of_mem_codeChars {stop base : Nat} {before t : Text} {s : Scanner} {k : CodeChar}
    (h : k ∈ s.codeChars stop base before t) : k.offset < stop := by
  induction t generalizing before s with
  | nil => cases h
  | cons c cs ih =>
    unfold codeChars at h
    dsimp only at h
    split at h
    · next hlt =>
      split at h
      · rcases List.mem_cons.1 h with rfl | h
        · exact hlt
        · exact ih h
      · exact ih h
    · cases h

end Scanner

/-- The code characters of whole lines do not depend on what follows them. -/
theorem codeChars_congr {p : Text} {start stop : Nat} (hp : Text.EndsLine p)
    (hstart : start ≤ size p) (hstop : stop ≤ size p) (x y : Text) :
    codeChars (p ++ x) start stop = codeChars (p ++ y) start stop := by
  have hjoin := Text.takeBytes_append_dropBytes start p
  have hreach := Scanner.reached_ofOffset (p ++ y) start
  rw [Text.takeBytes_append_of_le hstart] at hreach
  have hoffset : (Scanner.ofOffset (p ++ y) start).offset = size (p.takeBytes start) := by
    rw [hreach.offset_eq, Text.size_reverse]
  rw [codeChars, codeChars, Scanner.ofOffset_congr hp hstart x y, Scanner.codeCharsOf,
    Scanner.codeCharsOf, hoffset]
  generalize Scanner.ofOffset (p ++ y) start = s at hreach hoffset
  generalize p.takeBytes start = q at hjoin hreach hoffset
  generalize p.dropBytes start = r at hjoin
  subst hjoin
  simp only [List.append_assoc, Text.takeBytes_size, Text.dropBytes_size]
  rcases hp.of_append with rfl | ⟨u, rfl⟩
  · have hle : stop ≤ s.offset := by simpa [hoffset] using hstop
    rw [Scanner.codeChars_of_le hle, Scanner.codeChars_of_le hle]
  · refine Scanner.codeChars_newline_congr hreach ?_ _ x y
    rw [hoffset, ← Text.size_append]
    exact hstop

end Offside.Lexical
