import Offside.Proofs.LineEndings.Texts
import Offside.Proofs.Lexical.CodeView
import Offside.Proofs.Lexical.Places
import Mathlib.Data.List.Induction

/-!
# Scanning with other line endings

Two scanners that read a text without carriage returns and the same text with one before every line
feed.  The second one takes an extra step at the end of every line, which changes nothing, except
that an escaped line ending is two characters to be skipped instead of one.

* `State.map`: a state with other offsets;
* `Scanner.Clear`: what is to be skipped is no line ending unless it is escaped;
* `Scanner.Follows`, `Follows.step_of_ne`, `Follows.step_newline`: one character;
* `Scanner.follows_read`: all that comes before an offset;
* `Scanner.codeRead_withCrlf`: the code characters of a stretch.
-/

namespace Offside

open Text (size)

namespace Lexical

/-! ### States with other offsets -/

/-- A zone that began elsewhere. -/
def Zone.map (f : Nat → Nat) : Zone → Zone
  | .code => .code
  | .string o => .string { o with start := f o.start }
  | .comment n => .comment (f n)

/-- A state with other offsets. -/
def State.map (f : Nat → Nat) (s : State) : State := ⟨s.zone.map f, s.parens.map f⟩

namespace State

variable {f : Nat → Nat} {s t : State}

@[simp] theorem map_depth (f : Nat → Nat) (s : State) : (s.map f).depth = s.depth :=
  List.length_map f

@[simp] theorem map_isCode (f : Nat → Nat) (s : State) : (s.map f).isCode = s.isCode := by
  cases hz : s.zone <;> simp [isCode, map, Zone.map, hz]

@[simp] theorem map_string? (f : Nat → Nat) (s : State) :
    (s.map f).string? = s.string?.map fun o => { o with start := f o.start } := by
  cases hz : s.zone <;> simp [string?, map, Zone.map, hz]

@[simp] theorem map_inString (f : Nat → Nat) (s : State) : (s.map f).inString = s.inString := by
  rw [inString, inString, map_string?, Option.isSome_map]

@[simp] theorem map_innermostParen? (f : Nat → Nat) (s : State) :
    (s.map f).innermostParen? = s.innermostParen?.map f := by
  rw [innermostParen?, innermostParen?, map, List.head?_map]

/-- States are aligned by a map of offsets if the second is the first with other offsets. -/
theorem eq_map_of_aligned (h : s.Aligned (fun a b => f a = b) t) : t = s.map f := by
  have hparens : s.parens.map f = t.parens := by
    have := h.parens
    rwa [← List.forall₂_map_left_iff (R := Eq), List.forall₂_eq_eq_eq] at this
  have hzone : t.zone = s.zone.map f := by
    have := h.zone
    generalize s.zone = z at this
    generalize t.zone = w at this
    cases this with
    | code => rfl
    | string quote fence hstart => rw [Zone.map, ← hstart]
    | comment hstart => rw [Zone.map, ← hstart]
  cases t
  rw [map, hparens, ← hzone]

end State

/-! ### Looking ahead -/

/-- Two more quotes follow in both texts or in neither. -/
theorem opensTriple_withCrlf {c : Char} (hc : IsQuote c) (x : Text) :
    opensTriple c x.withCrlf = opensTriple c x := by
  have hn : ∀ y : Text, opensTriple c ('\n' :: y) = false ∧ opensTriple c ('\r' :: y) = false := by
    intro y
    rcases hc with rfl | rfl <;> simp [opensTriple]
  have hn' : ∀ (a : Char) (y : Text),
      opensTriple c (a :: '\n' :: y) = false ∧ opensTriple c (a :: '\r' :: y) = false := by
    intro a y
    rcases hc with rfl | rfl <;> simp [opensTriple]
  cases x with
  | nil => rfl
  | cons a y =>
    by_cases ha : a = '\n'
    · subst ha
      rw [Text.withCrlf_newline, (hn _).1, (hn _).2]
    · rw [Text.withCrlf_cons_of_ne ha]
      cases y with
      | nil => rfl
      | cons b z =>
        by_cases hb : b = '\n'
        · subst hb
          rw [Text.withCrlf_newline, (hn' _ _).1, (hn' _ _).2]
        · rw [Text.withCrlf_cons_of_ne hb]
          rfl

/-- A backslash escapes the whole line ending. -/
theorem escapeLength_withCrlf {x : Text} (hx : '\r' ∉ x) :
    escapeLength x.withCrlf = if x.head? = some '\n' then 2 else escapeLength x := by
  cases x with
  | nil => rfl
  | cons a y =>
    by_cases ha : a = '\n'
    · subst ha
      rfl
    · have hr : a ≠ '\r' := fun e => hx (e ▸ List.mem_cons_self)
      rw [Text.withCrlf_cons_of_ne ha, List.head?_cons, if_neg (by simpa using ha)]
      simp [escapeLength, hr]

theorem escapeLength_le_one {x : Text} (hx : '\r' ∉ x) : escapeLength x ≤ 1 := by
  cases x with
  | nil => exact Nat.zero_le 1
  | cons a y =>
    have hr : a ≠ '\r' := fun e => hx (e ▸ List.mem_cons_self)
    simp [escapeLength, hr]

/-! ### Starts of strings -/

theorem NoWord.withCrlf {p : Text} (h : NoWord p.reverse) : NoWord p.withCrlf.reverse := by
  rcases List.eq_nil_or_concat p with rfl | ⟨q, c, rfl⟩
  · exact h
  · by_cases hc : c = '\n'
    · subst hc
      simpa using NoWord.newline ('\r' :: (Text.withCrlf q).reverse)
    · intro a ha
      refine h a ?_
      simpa [Text.withCrlf_cons_of_ne hc] using ha

/-- A string starts at corresponding offsets. -/
theorem crlfOffset_stringStart (p x : Text) :
    (p ++ x).crlfOffset (stringStart p.reverse (size p)) =
      stringStart p.withCrlf.reverse (size p.withCrlf) := by
  -- the word before the quote, and what stands before the word
  obtain ⟨rest, word, rfl, hword, hrest⟩ : ∃ rest word : Text, p = rest ++ word ∧
      (∀ c ∈ word, isMarkChar c = true) ∧ NoWord rest.reverse := by
    refine ⟨(p.reverse.dropWhile isMarkChar).reverse, (p.reverse.takeWhile isMarkChar).reverse,
      ?_, fun c hc => List.mem_takeWhile_imp (List.mem_reverse.1 hc), ?_⟩
    · rw [← List.reverse_append, List.takeWhile_append_dropWhile, List.reverse_reverse]
    · intro c hc
      have hhead := List.head?_dropWhile_not isMarkChar p.reverse
      rw [List.reverse_reverse, Option.mem_def] at hc
      rwa [hc] at hhead
  have hnewline : '\n' ∉ word := fun hmem => absurd (hword _ hmem) (by decide)
  rw [Text.withCrlf_append, Text.withCrlf_of_not_mem hnewline, List.reverse_append,
    List.reverse_append, Text.size_append, Text.size_append, stringStart_append hrest,
    stringStart_append hrest.withCrlf, List.append_assoc]
  -- it starts at the word or at the quote
  have htake : word.reverse.takeWhile isMarkChar = word.reverse :=
    List.takeWhile_eq_self_iff.2 fun c hc => hword c (List.mem_reverse.1 hc)
  rw [stringStart, htake]
  split
  · rw [List.length_reverse, size_of_isMarkChar hword, Nat.sub_self]
    exact Text.crlfOffset_size _ _
  · exact Text.crlfOffset_size_add hnewline _ _

namespace Scanner

/-! ### Steps -/

/-- At most two characters are left to be skipped, and two only if neither of them is a line feed.
-/
def Clear (s : Scanner) (after : Text) : Prop :=
  s.skip ≤ 2 ∧ (s.skip = 2 → '\n' ∉ after.take 2)

namespace Clear

variable {s : Scanner} {before after p : Text} {c : Char}

theorem pending (h : Clear s after) : Pending s after := by
  refine ⟨h.1, fun htwo hhead => h.2 htwo ?_⟩
  obtain ⟨rest, rfl⟩ := List.head?_eq_some_iff.1 hhead
  exact List.mem_cons_self

theorem step (h : Reached before s) (hc : Clear s (c :: after)) (hr : '\r' ∉ after) :
    Clear (s.step before c after) after := by
  rcases Nat.eq_zero_or_pos s.skip with hs | hs
  · rcases skip_step h hs c after with hzero | ⟨hq, ht, htwo⟩ | ⟨-, -, hescape⟩
    · exact ⟨by omega, fun htwo => by omega⟩
    · refine ⟨Nat.le_of_eq htwo, fun _ => ?_⟩
      have htake : after.take 2 = [c, c] := by simpa [opensTriple] using ht
      rw [htake]
      rcases hq with rfl | rfl <;> decide
    · have hle := escapeLength_le_one hr
      exact ⟨by omega, fun htwo => by omega⟩
  · have hlt : (s.step before c after).skip ≤ s.skip - 1 := skip_step_le hs c after
    have hle := hc.1
    exact ⟨by omega, fun htwo => by omega⟩

theorem read (h : Reached before s) (hc : Clear s (p ++ after)) (hr : '\r' ∉ p ++ after) :
    Clear (s.read before p after) after := by
  induction p generalizing before s with
  | nil => exact hc
  | cons c cs ih =>
    have htail : '\r' ∉ cs ++ after := fun hmem => hr (List.mem_cons_of_mem c hmem)
    exact ih (h.step c (cs ++ after)) (step h hc htail) htail

end Clear

/-- Scanners before a text and the same text with other line endings: equal up to offsets, except
that an escaped line ending has two characters in the second one. -/
structure Follows (f : Nat → Nat) (after : Text) (s t : Scanner) : Prop where
  state : s.state.Aligned (fun a b => f a = b) t.state
  skip : t.skip = if s.skip = 1 ∧ after.head? = some '\n' then 2 else s.skip
  closePending : s.closePending = t.closePending

namespace Follows

variable {f : Nat → Nat} {s t : Scanner} {p x : Text} {c : Char}

theorem of_aligned (h : Aligned (fun a b => f a = b) s t)
    (hx : ¬ (s.skip = 1 ∧ x.head? = some '\n')) : Follows f x s t :=
  ⟨h.state, by rw [if_neg hx, h.skip], h.closePending⟩

theorem aligned (h : Follows f x s t) (hx : ¬ (s.skip = 1 ∧ x.head? = some '\n')) :
    Aligned (fun a b => f a = b) s t :=
  ⟨h.state, by rw [h.skip, if_neg hx], h.closePending⟩

theorem state_eq (h : Follows f x s t) : t.state = s.state.map f := State.eq_map_of_aligned h.state

theorem depth_eq (h : Follows f x s t) : t.state.depth = s.state.depth := by
  rw [h.state_eq, State.map_depth]

theorem state_isCode_eq (h : Follows f x s t) : t.state.isCode = s.state.isCode := by
  rw [h.state_eq, State.map_isCode]

/-- Both scanners are between tokens or neither is. -/
theorem isCode_eq (h : Follows f x s t) : t.isCode = s.isCode := by
  have hskip : t.skip = 0 ↔ s.skip = 0 := by
    rw [h.skip]
    split <;> omega
  rw [isCode, isCode, h.state_isCode_eq, atBoundary, atBoundary, Bool.eq_iff_iff]
  simp [hskip]

/-- A character that ends no line is read by both scanners. -/
theorem step_of_ne (hf : ∀ n, f n = (p ++ c :: x).crlfOffset n) (hr : '\r' ∉ x) (hn : c ≠ '\n')
    (hs : Reached p.reverse s) (ht : Reached p.withCrlf.reverse t) (hc : Clear s (c :: x))
    (h : Follows f (c :: x) s t) :
    Follows f x (s.step p.reverse c x) (t.step p.withCrlf.reverse c x.withCrlf) := by
  have hhead : ¬ (s.skip = 1 ∧ (c :: x).head? = some '\n') := by simp [hn]
  have ha := h.aligned hhead
  have hso : s.offset = size p := by rw [hs.offset_eq, Text.size_reverse]
  have hto : t.offset = size p.withCrlf := by rw [ht.offset_eq, Text.size_reverse]
  have hplace : f s.offset = t.offset ∧
      f (stringStart p.reverse s.offset) = stringStart p.withCrlf.reverse t.offset := by
    rw [hf, hf, hso, hto, Text.crlfOffset_size, crlfOffset_stringStart]
    exact ⟨rfl, rfl⟩
  have hsame : Aligned (fun a b => f a = b) (s.step p.reverse c x)
      (t.step p.withCrlf.reverse c x) :=
    ha.step fun _ => hplace
  by_cases hescape : (c = '\\' ∧ ∃ o, t.state.zone = .string o) ∧ s.skip = 0 ∧ x.head? = some '\n'
  · -- the line ending after a backslash is one character for the one and two for the other
    obtain ⟨⟨rfl, o, hw⟩, hs0, hx⟩ := hescape
    have ht0 : t.skip = 0 := ha.skip ▸ hs0
    have hlast : t.step p.withCrlf.reverse '\\' x.withCrlf =
        { t.step p.withCrlf.reverse '\\' x with skip := 2 } := by
      rw [step_of_string ht0 hw, step_of_string ht0 hw, stepString, if_pos rfl, stepString,
        if_pos rfl, escapeLength_withCrlf hr, if_pos hx]
    have hone : (s.step p.reverse '\\' x).skip = 1 := by
      obtain ⟨y, rfl⟩ := List.head?_eq_some_iff.1 hx
      rw [hsame.skip, step_of_string ht0 hw, stepString, if_pos rfl]
      rfl
    rw [hlast]
    exact ⟨hsame.state, by rw [if_pos ⟨hone, hx⟩], hsame.closePending⟩
  · have hlook : t.step p.withCrlf.reverse c x.withCrlf = t.step p.withCrlf.reverse c x := by
      refine step_congr_of_look ht (fun hq => opensTriple_withCrlf hq x) fun ht0 hw hb => ?_
      rw [escapeLength_withCrlf hr, if_neg fun hx => hescape ⟨⟨hb, hw⟩, ha.skip ▸ ht0, hx⟩]
    rw [hlook]
    refine of_aligned hsame ?_
    rintro ⟨hone, hx⟩
    rcases Nat.eq_zero_or_pos t.skip with ht0 | ht0
    · rw [hsame.skip] at hone
      rcases skip_step ht ht0 c x with hzero | ⟨-, -, htwo⟩ | ⟨hb, hw, -⟩
      · omega
      · omega
      · exact hescape ⟨⟨hb, hw⟩, ha.skip ▸ ht0, hx⟩
    · -- the line feed would be the second of two characters to be skipped
      have hle : (s.step p.reverse c x).skip ≤ s.skip - 1 :=
        skip_step_le (by rw [ha.skip]; exact ht0) c x
      obtain ⟨y, rfl⟩ := List.head?_eq_some_iff.1 hx
      have htwo := hc.1
      exact hc.2 (by omega) (by simp)

/-- Past the line feed of a text the other scanner has read two characters. -/
theorem step_newline (hs : Reached p.reverse s) (ht : Reached p.withCrlf.reverse t)
    (hc : Clear s ('\n' :: x)) (h : Follows f ('\n' :: x) s t) :
    Follows f x (s.step p.reverse '\n' x)
      ((t.step p.withCrlf.reverse '\r' ('\n' :: x.withCrlf)).step ('\r' :: p.withCrlf.reverse) '\n'
        x.withCrlf) := by
  have hreach := ht.step '\r' ('\n' :: x.withCrlf)
  -- the carriage return changes nothing, or it is the first of two characters to be skipped
  have hreturn : Aligned (fun a b => f a = b) s
      (t.step p.withCrlf.reverse '\r' ('\n' :: x.withCrlf)) := by
    rcases Nat.eq_zero_or_pos s.skip with hs0 | hs0
    · have ha := h.aligned (by omega)
      rw [step_of_isPlain ht (ha.skip ▸ hs0) (by decide)]
      exact ⟨ha.state, ha.skip, ha.closePending⟩
    · have hone : s.skip = 1 := by
        have hle := hc.1
        by_contra hne
        exact hc.2 (by omega) (by simp)
      have htwo : t.skip = 2 := by rw [h.skip, if_pos ⟨hone, rfl⟩]
      rw [step_of_skip (by omega), stepToken_of_not_close (by rw [moved_skip]; omega)]
      exact ⟨h.state, by rw [moved_skip, hone, htwo], h.closePending⟩
  have hstep : Aligned (fun a b => f a = b) (s.step p.reverse '\n' x)
      ((t.step p.withCrlf.reverse '\r' ('\n' :: x.withCrlf)).step ('\r' :: p.withCrlf.reverse) '\n'
        x) :=
    hreturn.step fun hb => absurd hb (by decide)
  rw [step_congr hreach (.inl rfl) (y := x)]
  exact of_aligned hstep fun hone => by
    have hzero := skip_step_newline hs hc.pending
    omega

end Follows

/-! ### Readings -/

theorem read_concat (p x : Text) (c : Char) :
    ({} : Scanner).read [] (p ++ [c]) x =
      (({} : Scanner).read [] p (c :: x)).step p.reverse c x := by
  rw [read_append, List.append_nil]
  rfl

theorem read_withCrlf_concat {c : Char} (hn : c ≠ '\n') (p x : Text) :
    ({} : Scanner).read [] (Text.withCrlf (p ++ [c])) x.withCrlf =
      (({} : Scanner).read [] p.withCrlf (Text.withCrlf (c :: x))).step p.withCrlf.reverse c
        x.withCrlf := by
  rw [Text.withCrlf_append, Text.withCrlf_cons_of_ne hn, Text.withCrlf_cons_of_ne hn,
    Text.withCrlf_nil, read_concat]

theorem read_withCrlf_newline (p x : Text) :
    ({} : Scanner).read [] (Text.withCrlf (p ++ ['\n'])) x.withCrlf =
      ((({} : Scanner).read [] p.withCrlf (Text.withCrlf ('\n' :: x))).step p.withCrlf.reverse '\r'
        ('\n' :: x.withCrlf)).step ('\r' :: p.withCrlf.reverse) '\n' x.withCrlf := by
  rw [Text.withCrlf_append, Text.withCrlf_newline, Text.withCrlf_newline, Text.withCrlf_nil,
    read_append, List.append_nil]
  rfl

/-- After reading what stands before a place in both texts, the second scanner follows the first. -/
theorem follows_read {p x : Text} (hr : '\r' ∉ p ++ x) :
    Follows (p ++ x).crlfOffset x (({} : Scanner).read [] p x)
      (({} : Scanner).read [] p.withCrlf x.withCrlf) := by
  induction p using List.reverseRecOn generalizing x with
  | nil => exact .of_aligned .init fun hx => nomatch hx.1
  | append_singleton p c ih =>
    rw [List.append_assoc, List.singleton_append] at hr ⊢
    have hrx : '\r' ∉ x := fun hmem => hr (List.mem_append_right p (List.mem_cons_of_mem c hmem))
    have hs : Reached p.reverse (({} : Scanner).read [] p (c :: x)) := by
      simpa using Reached.init.read (p := p) (c :: x)
    have ht : Reached (Text.withCrlf p).reverse
        (({} : Scanner).read [] (Text.withCrlf p) (Text.withCrlf (c :: x))) := by
      simpa using Reached.init.read (p := Text.withCrlf p) (Text.withCrlf (c :: x))
    have hc : Clear (({} : Scanner).read [] p (c :: x)) (c :: x) :=
      Clear.read Reached.init ⟨Nat.zero_le 2, fun htwo => nomatch htwo⟩ hr
    rw [read_concat]
    by_cases hn : c = '\n'
    · subst hn
      rw [read_withCrlf_newline]
      exact (ih hr).step_newline hs ht hc
    · rw [read_withCrlf_concat hn]
      exact (ih hr).step_of_ne (fun _ => rfl) hrx hn hs ht hc

end Scanner

/-! ### Code characters -/

/-- A code character at another offset. -/
def CodeChar.map (f : Nat → Nat) (k : CodeChar) : CodeChar := { k with offset := f k.offset }

/-- Whether a code character is part of no line ending. -/
def CodeChar.inBody (k : CodeChar) : Bool := k.char != '\r' && k.char != '\n'

namespace Scanner

theorem filter_codeRead_cons (base : Nat) (before cs after : Text) (c : Char) (s : Scanner) :
    (s.codeRead base before (c :: cs) after).filter CodeChar.inBody =
      (if (s.isCode && (s.step before c (cs ++ after)).state.isCode) &&
          (c != '\r' && c != '\n') then
        [⟨s.offset, c,
          (min s.state.depth (s.step before c (cs ++ after)).state.depth : Nat) - (base : Int)⟩]
      else []) ++
        ((s.step before c (cs ++ after)).codeRead base (c :: before) cs after).filter
          CodeChar.inBody := by
  rw [codeRead]
  by_cases hcode : (s.isCode && (s.step before c (cs ++ after)).state.isCode) = true
  · rw [if_pos hcode, hcode, Bool.true_and, List.filter_cons, CodeChar.inBody]
    split <;> rfl
  · rw [if_neg hcode, if_neg fun h => hcode (Bool.and_eq_true_iff.1 h).1]
    rfl

/-- Both texts have the same code characters apart from line endings, at corresponding offsets. -/
theorem codeRead_withCrlf {p q x : Text} (hr : '\r' ∉ p ++ (q ++ x)) (base : Nat) :
    ((({} : Scanner).read [] p.withCrlf (Text.withCrlf (q ++ x))).codeRead base p.withCrlf.reverse
        q.withCrlf x.withCrlf).filter CodeChar.inBody =
      (((({} : Scanner).read [] p (q ++ x)).codeRead base p.reverse q x).filter
        CodeChar.inBody).map (CodeChar.map (p ++ (q ++ x)).crlfOffset) := by
  induction q generalizing p with
  | nil => rfl
  | cons c q ih =>
    rw [List.cons_append] at hr ⊢
    have hr' : '\r' ∉ p ++ [c] ++ (q ++ x) := by simpa using hr
    have hrest := ih hr'
    rw [read_concat, List.append_assoc p, List.singleton_append, List.reverse_concat] at hrest
    by_cases hn : c = '\n'
    · subst hn
      rw [read_withCrlf_newline] at hrest
      rw [Text.withCrlf_newline, filter_codeRead_cons, filter_codeRead_cons, filter_codeRead_cons]
      simpa using hrest
    · have hfollows := follows_read hr
      have hnext := follows_read hr'
      rw [read_concat, read_withCrlf_concat hn] at hnext
      have hback : (Text.withCrlf (p ++ [c])).reverse = c :: p.withCrlf.reverse := by
        simp [Text.withCrlf_cons_of_ne hn]
      rw [read_withCrlf_concat hn, hback] at hrest
      have hoffset : (p ++ c :: (q ++ x)).crlfOffset
          (({} : Scanner).read [] p (c :: (q ++ x))).offset =
            (({} : Scanner).read [] p.withCrlf (Text.withCrlf (c :: (q ++ x)))).offset := by
        rw [read_offset, read_offset, Nat.zero_add, Nat.zero_add, Text.crlfOffset_size]
      rw [Text.withCrlf_cons_of_ne hn q, filter_codeRead_cons, filter_codeRead_cons,
        List.map_append, ← Text.withCrlf_append, hrest, hfollows.isCode_eq, hfollows.depth_eq,
        hnext.state_isCode_eq, hnext.depth_eq]
      split
      · rw [List.map_singleton, CodeChar.map, hoffset]
      · rfl

end Scanner

end Lexical

end Offside
