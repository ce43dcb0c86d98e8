import Mathlib.Data.List.Nodup
import Offside.Proofs.Guarded.Assignment

/-!
# Operators by longest match

The table of operators lists longer ones before shorter ones, so the first entry that fits at the
start of a run is the longest one that does.  Every operator character is an operator by itself, so
some entry always fits and a run is cut into operators to its end.

* `LongestMatch`: a run cut into tokens, each the longest operator that fits;
* `operatorAt_spec`: the token at the start of a run;
* `longestMatch_iff`: the tokens of a run are those of the longest match, and no others;
* `operatorRuns_cons_cases`: the runs of a list with one more character;
* `IsMaximalRun`, `mem_operatorRuns_iff`: the runs that are listed are the maximal ones;
* `placedTokens`, `operatorPlaces`: all tokens with their offsets, from left to right;
* `assignmentEnd?_eq_find?`: the first assignment operator among them.
-/

namespace Offside

open Lexical

/-! ### Tokens of a run -/

/-- Whether a text is spelt like one of these operators. -/
def IsOneOf (ops : List String) (token : Text) : Prop := ∃ op ∈ ops, op.toList = token

instance (ops : List String) (token : Text) : Decidable (IsOneOf ops token) :=
  inferInstanceAs (Decidable (∃ op ∈ ops, op.toList = token))

/-- A run cut into operators from its start to its end, each the longest one that fits. -/
inductive LongestMatch : Text → List Text → Prop
  | nil : LongestMatch [] []
  | cons {run token rest : Text} {tokens : List Text} (hrun : run = token ++ rest)
      (htoken : IsOneOf operators token)
      (hlongest : ∀ other, IsOneOf operators other → other <+: run → other.length ≤ token.length)
      (hrest : LongestMatch rest tokens) : LongestMatch run (token :: tokens)

theorem ne_nil_of_isOneOf {token : Text} (h : IsOneOf operators token) : token ≠ [] := by
  have hall : ∀ op ∈ operators, op.toList ≠ [] := by decide
  obtain ⟨op, hop, rfl⟩ := h
  exact hall op hop

/-- What holds of each listed operator character holds of every operator character. -/
theorem of_isOperatorChar (p : Char → Prop) [DecidablePred p] {c : Char}
    (h : isOperatorChar c = true)
    (hall : ['=', '+', '-', '*', '/', '%', '<', '>', '&', '^', '|', '@', '!', ':', '~', '.'].all
      (decide <| p ·) = true) : p c :=
  of_decide_eq_true (List.all_eq_true.1 hall c (List.contains_iff_mem.1 h))

/-- Every operator character is an operator. -/
theorem isOneOf_singleton {c : Char} (h : isOperatorChar c = true) : IsOneOf operators [c] :=
  of_isOperatorChar (fun k => IsOneOf operators [k]) h (by decide)

/-- Longer operators come before shorter ones. -/
theorem pairwise_operators :
    operators.Pairwise fun a b => b.toList.length ≤ a.toList.length := by
  decide

/-- The search in the table finds an operator at the start of every run, and the longest one. -/
theorem exists_find?_operators {c : Char} (h : isOperatorChar c = true) (cs : Text) :
    ∃ op ∈ operators, operators.find? (fun o => o.toList.isPrefixOf (c :: cs)) = some op ∧
      ∀ other, IsOneOf operators other → other <+: c :: cs → other.length ≤ op.toList.length := by
  have hsome : (operators.find? fun o => o.toList.isPrefixOf (c :: cs)).isSome = true := by
    obtain ⟨op, hop, hc⟩ := isOneOf_singleton h
    exact List.find?_isSome.2 ⟨op, hop, by simp [hc]⟩
  obtain ⟨op, hop⟩ := Option.isSome_iff_exists.1 hsome
  obtain ⟨-, earlier, later, htable, hearlier⟩ := List.find?_eq_some_iff_append.1 hop
  refine ⟨op, List.mem_of_find?_eq_some hop, hop, ?_⟩
  rintro - ⟨other, hother, rfl⟩ hprefix
  have hsorted := pairwise_operators
  rw [htable] at hother hsorted
  -- an entry that fits is not listed before the one that is found
  rcases List.mem_append.1 hother with hmem | hmem
  · have hno := hearlier other hmem
    rw [Bool.not_eq_true', ← Bool.not_eq_true, List.isPrefixOf_iff_prefix] at hno
    exact absurd hprefix hno
  · rcases List.mem_cons.1 hmem with rfl | hmem
    · exact Nat.le_refl _
    · exact (List.pairwise_cons.1 (List.pairwise_append.1 hsorted).2.1).1 other hmem

/-- The operator at the start of a run is the longest one that fits. -/
theorem operatorAt_spec {c : Char} (h : isOperatorChar c = true) (cs : Text) :
    IsOneOf operators (operatorAt (c :: cs)) ∧
      ∀ other, IsOneOf operators other → other <+: c :: cs →
        other.length ≤ (operatorAt (c :: cs)).length := by
  obtain ⟨op, hmem, hfind, hlongest⟩ := exists_find?_operators h cs
  have hop : operatorAt (c :: cs) = op.toList := by rw [operatorAt, hfind]
  rw [hop]
  exact ⟨⟨op, hmem, rfl⟩, hlongest⟩

/-- The operators that a run is cut into are those of the longest match. -/
theorem longestMatch_operatorsFrom {n : Nat} {run : Text} (hn : run.length ≤ n)
    (h : ∀ c ∈ run, isOperatorChar c = true) : LongestMatch run (operatorsFrom n run) := by
  induction n generalizing run with
  | zero =>
    obtain rfl := List.length_eq_zero_iff.1 (Nat.le_zero.1 hn)
    exact .nil
  | succ n ih =>
    cases run with
    | nil => exact .nil
    | cons c cs =>
      obtain ⟨htoken, hlongest⟩ := operatorAt_spec (h c List.mem_cons_self) cs
      have hjoin := List.prefix_iff_eq_append.1 (isPrefix_operatorAt (c :: cs))
      have hpos := List.length_pos_iff.2 (ne_nil_of_isOneOf htoken)
      refine .cons hjoin.symm htoken hlongest (ih ?_ fun k hk => h k (List.mem_of_mem_drop hk))
      rw [List.length_drop]
      rw [List.length_cons] at hn ⊢
      omega

/-- There is only one way to cut a run by longest match. -/
theorem LongestMatch.unique {run : Text} {tokens tokens' : List Text} (h : LongestMatch run tokens)
    (h' : LongestMatch run tokens') : tokens = tokens' := by
  induction h generalizing tokens' with
  | nil =>
    cases h' with
    | nil => rfl
    | cons hrun htoken =>
      exact absurd (List.append_eq_nil_iff.1 hrun.symm).1 (ne_nil_of_isOneOf htoken)
  | @cons run token rest tokens hrun htoken hlongest _ ih =>
    cases h' with
    | nil => exact absurd (List.append_eq_nil_iff.1 hrun.symm).1 (ne_nil_of_isOneOf htoken)
    | @cons _ token' rest' tokens' hrun' htoken' hlongest' hrest' =>
      have hprefix : token <+: run := ⟨rest, hrun.symm⟩
      have hprefix' : token' <+: run := ⟨rest', hrun'.symm⟩
      have hlength : token.length = token'.length :=
        Nat.le_antisymm (hlongest' token htoken hprefix) (hlongest token' htoken' hprefix')
      obtain ⟨rfl, rfl⟩ := List.append_inj (hrun.symm.trans hrun') hlength
      rw [ih hrest']

/-- The tokens of a run are those of the longest match, and no others. -/
theorem longestMatch_iff {run : Text} {tokens : List Text}
    (h : ∀ c ∈ run, isOperatorChar c = true) :
    LongestMatch run tokens ↔ tokens = operatorTokens run := by
  have hmatch : LongestMatch run (operatorTokens run) :=
    longestMatch_operatorsFrom (Nat.le_refl _) h
  constructor
  · exact fun htokens => htokens.unique hmatch
  · rintro rfl
    exact hmatch

theorem LongestMatch.flatten_eq {run : Text} {tokens : List Text} (h : LongestMatch run tokens) :
    tokens.flatten = run := by
  induction h with
  | nil => rfl
  | cons hrun _ _ _ ih => rw [List.flatten_cons, ih, hrun]

theorem LongestMatch.isOneOf {run : Text} {tokens : List Text} (h : LongestMatch run tokens) :
    ∀ token ∈ tokens, IsOneOf operators token := by
  induction h with
  | nil => simp
  | cons _ htoken _ _ ih => exact List.forall_mem_cons.2 ⟨htoken, ih⟩

/-! ### Runs -/

/-- A run of adjacent places, one byte each, that cannot be made longer at either end. -/
structure IsMaximalRun (place : Nat → Char → Prop) (start : Nat) (run : Text) : Prop where
  ne_nil : run ≠ []
  places : ∀ i (h : i < run.length), place (start + i) run[i]
  not_after : ∀ c, ¬ place (start + run.length) c
  not_before : ∀ offset c, offset + 1 = start → ¬ place offset c

/-- Two maximal runs that share a place are the same. -/
theorem IsMaximalRun.unique {place : Nat → Char → Prop} {start start' : Nat} {run run' : Text}
    (h : IsMaximalRun place start run) (h' : IsMaximalRun place start' run')
    (hplace : ∀ offset c c', place offset c → place offset c' → c = c') (offset : Nat)
    (hrun : start ≤ offset ∧ offset < start + run.length)
    (hrun' : start' ≤ offset ∧ offset < start' + run'.length) : start = start' ∧ run = run' := by
  have hin : ∀ {s r}, IsMaximalRun place s r → ∀ o, s ≤ o → o < s + r.length → ∃ c, place o c := by
    intro s r hmax o hlo hhi
    obtain ⟨i, rfl⟩ := Nat.exists_eq_add_of_le hlo
    exact ⟨_, hmax.places i (by omega)⟩
  -- neither run reaches beyond the other
  have hstart : ∀ {s r s' r'}, IsMaximalRun place s r → IsMaximalRun place s' r' → s ≤ offset →
      offset < s + r.length → s' ≤ offset → ¬ s < s' := by
    intro s r s' r' hmax hmax' hlo hhi hlo' hlt
    obtain ⟨c, hc⟩ := hin hmax (s' - 1) (by omega) (by omega)
    exact hmax'.not_before _ c (by omega) hc
  obtain rfl : start = start' := by
    have hlt := hstart h h' hrun.1 hrun.2 hrun'.1
    have hgt := hstart h' h hrun'.1 hrun'.2 hrun.1
    omega
  have hlength : ∀ {r r'}, IsMaximalRun place start r → IsMaximalRun place start r' →
      ¬ r.length < r'.length := by
    intro r r' hmax hmax' hlt
    exact hmax.not_after _ (hmax'.places r.length hlt)
  have hle := hlength h h'
  have hge := hlength h' h
  refine ⟨rfl, List.ext_getElem (by omega) fun i hi hi' => ?_⟩
  exact hplace _ _ _ (h.places i hi) (h'.places i hi')

/-- Whether an operator character outside brackets is listed with an offset. -/
def OperatorIn (chars : List CodeChar) (offset : Nat) (c : Char) : Prop :=
  ∃ k ∈ chars, IsOperator k ∧ k.offset = offset ∧ k.char = c

section Runs

variable {chars : List CodeChar} {k : CodeChar} {offset start : Nat} {c : Char} {run : Text}

theorem operatorIn_cons : OperatorIn (k :: chars) offset c ↔
    (IsOperator k ∧ k.offset = offset ∧ k.char = c) ∨ OperatorIn chars offset c := by
  simp only [OperatorIn, List.mem_cons, exists_eq_or_imp]

theorem lt_of_operatorIn (hseq : InSequence (k :: chars)) (h : OperatorIn chars offset c) :
    k.offset < offset := by
  obtain ⟨l, hl, -, rfl, -⟩ := h
  have hle := (List.pairwise_cons.1 hseq).1 l hl
  have hpos := k.char.utf8Size_pos
  omega

/-- A run of the later characters that does not begin directly after the first one stays a run. -/
theorem IsMaximalRun.of_ne (hseq : InSequence (k :: chars))
    (h : IsMaximalRun (OperatorIn chars) start run) (hne : start ≠ k.offset + 1) :
    IsMaximalRun (OperatorIn (k :: chars)) start run where
  ne_nil := h.ne_nil
  places i hi := operatorIn_cons.2 (.inr (h.places i hi))
  not_after c hc := by
    have hlt := lt_of_operatorIn hseq (h.places 0 (List.length_pos_iff.2 h.ne_nil))
    rcases operatorIn_cons.1 hc with ⟨-, hoffset, -⟩ | hc
    · omega
    · exact h.not_after c hc
  not_before offset c hstart hc := by
    rcases operatorIn_cons.1 hc with ⟨-, hoffset, -⟩ | hc
    · omega
    · exact h.not_before offset c hstart hc

/-- A run of the later characters that begins directly after the first one goes on with it. -/
theorem IsMaximalRun.extend (hseq : InSequence (k :: chars)) (hop : IsOperator k)
    (h : IsMaximalRun (OperatorIn chars) (k.offset + 1) run) :
    IsMaximalRun (OperatorIn (k :: chars)) k.offset (k.char :: run) where
  ne_nil := List.cons_ne_nil _ _
  places i hi := by
    cases i with
    | zero => exact operatorIn_cons.2 (.inl ⟨hop, rfl, rfl⟩)
    | succ i =>
      have hplace := h.places i (Nat.lt_of_succ_lt_succ hi)
      rw [Nat.add_assoc, Nat.add_comm 1 i] at hplace
      exact operatorIn_cons.2 (.inr hplace)
  not_after c hc := by
    rw [List.length_cons] at hc
    rcases operatorIn_cons.1 hc with ⟨-, hoffset, -⟩ | hc
    · omega
    · refine h.not_after c ?_
      rwa [Nat.add_assoc, Nat.add_comm 1]
  not_before offset c hstart hc := by
    rcases operatorIn_cons.1 hc with ⟨-, hoffset, -⟩ | hc
    · omega
    · have := lt_of_operatorIn hseq hc
      omega

/-- An operator character with no other one directly after it is a run. -/
theorem IsMaximalRun.single (hseq : InSequence (k :: chars)) (hop : IsOperator k)
    (h : ∀ c, ¬ OperatorIn chars (k.offset + 1) c) :
    IsMaximalRun (OperatorIn (k :: chars)) k.offset [k.char] where
  ne_nil := List.cons_ne_nil _ _
  places i hi := by
    obtain rfl : i = 0 := Nat.lt_one_iff.1 hi
    exact operatorIn_cons.2 (.inl ⟨hop, rfl, rfl⟩)
  not_after c hc := by
    rcases operatorIn_cons.1 hc with ⟨-, hoffset, -⟩ | hc
    · simp at hoffset
    · exact h c hc
  not_before offset c hstart hc := by
    rcases operatorIn_cons.1 hc with ⟨-, hoffset, -⟩ | hc
    · omega
    · have := lt_of_operatorIn hseq hc
      omega

end Runs

/-- What one more character at the front does to the runs: nothing if it is no operator character,
else it goes on with the first run or is a run by itself. -/
theorem operatorRuns_cons_cases (k : CodeChar) (chars : List CodeChar) :
    (¬ IsOperator k ∧ operatorRuns (k :: chars) = operatorRuns chars) ∨
    (IsOperator k ∧ ∃ run rest, operatorRuns chars = (k.offset + 1, run) :: rest ∧
      operatorRuns (k :: chars) = (k.offset, k.char :: run) :: rest) ∨
    (IsOperator k ∧ (∀ r ∈ (operatorRuns chars).head?, r.1 ≠ k.offset + 1) ∧
      operatorRuns (k :: chars) = (k.offset, [k.char]) :: operatorRuns chars) := by
  by_cases hop : IsOperator k
  · have hone : k.char.utf8Size = 1 := utf8Size_of_isOperatorChar hop.2
    rw [operatorRuns, if_pos hop, hone]
    cases hruns : operatorRuns chars with
    | nil => exact .inr (.inr ⟨hop, by simp, rfl⟩)
    | cons r rest =>
      by_cases hadjacent : r.1 = k.offset + 1
      · refine .inr (.inl ⟨hop, r.2, rest, ?_, if_pos hadjacent⟩)
        rw [← hadjacent]
      · exact .inr (.inr ⟨hop, by simpa using hadjacent, if_neg hadjacent⟩)
  · exact .inl ⟨hop, by rw [operatorRuns, if_neg hop]⟩

/-- Every run begins with one of the characters, so behind those before them. -/
theorem lt_of_mem_operatorRuns {k : CodeChar} {chars : List CodeChar}
    (hseq : InSequence (k :: chars)) : ∀ r ∈ operatorRuns chars, k.offset < r.1 := by
  intro r hr
  obtain ⟨l, hl, hstart⟩ := exists_offset_of_mem_operatorRuns r hr
  have hle := (List.pairwise_cons.1 hseq).1 l hl
  have hpos := k.char.utf8Size_pos
  omega

/-- Runs are listed from left to right. -/
theorem pairwise_operatorRuns {chars : List CodeChar} (hseq : InSequence chars) :
    (operatorRuns chars).Pairwise fun r r' => r.1 < r'.1 := by
  induction chars with
  | nil => exact .nil
  | cons k chars ih =>
    have hruns := ih (List.pairwise_cons.1 hseq).2
    have hlater := lt_of_mem_operatorRuns hseq
    obtain ⟨-, heq⟩ | ⟨-, run, rest, hnext, heq⟩ | ⟨-, -, heq⟩ := operatorRuns_cons_cases k chars
    · rw [heq]
      exact hruns
    · rw [hnext] at hruns hlater
      rw [heq]
      exact List.pairwise_cons.2 ⟨fun r hr => hlater r (List.mem_cons_of_mem _ hr),
        (List.pairwise_cons.1 hruns).2⟩
    · rw [heq]
      exact List.pairwise_cons.2 ⟨hlater, hruns⟩

/-- Every operator character outside brackets is in one of the runs. -/
theorem exists_run_of_operatorIn {chars : List CodeChar} {offset : Nat} {c : Char}
    (h : OperatorIn chars offset c) :
    ∃ r ∈ operatorRuns chars, r.1 ≤ offset ∧ offset < r.1 + r.2.length := by
  induction chars with
  | nil =>
    obtain ⟨k, hk, -⟩ := h
    cases hk
  | cons k chars ih =>
    obtain ⟨hop, heq⟩ | ⟨-, run, rest, hnext, heq⟩ | ⟨-, -, heq⟩ := operatorRuns_cons_cases k chars
    all_goals rw [heq]
    · exact ih ((operatorIn_cons.1 h).resolve_left fun hk => hop hk.1)
    · rcases operatorIn_cons.1 h with ⟨-, rfl, -⟩ | h
      · exact ⟨_, List.mem_cons_self, Nat.le_refl _, by simp⟩
      · obtain ⟨r, hr, hlo, hhi⟩ := ih h
        rw [hnext] at hr
        rcases List.mem_cons.1 hr with rfl | hr
        · refine ⟨_, List.mem_cons_self, Nat.le_of_succ_le hlo, ?_⟩
          simp only [List.length_cons] at *
          omega
        · exact ⟨r, List.mem_cons_of_mem _ hr, hlo, hhi⟩
    · rcases operatorIn_cons.1 h with ⟨-, rfl, -⟩ | h
      · exact ⟨_, List.mem_cons_self, Nat.le_refl _, by simp⟩
      · obtain ⟨r, hr, hbounds⟩ := ih h
        exact ⟨r, List.mem_cons_of_mem _ hr, hbounds⟩

/-- Runs cannot be made longer. -/
theorem isMaximalRun_of_mem_operatorRuns {chars : List CodeChar} (hseq : InSequence chars) :
    ∀ r ∈ operatorRuns chars, IsMaximalRun (OperatorIn chars) r.1 r.2 := by
  induction chars with
  | nil => simp [operatorRuns]
  | cons k chars ih =>
    have htail := (List.pairwise_cons.1 hseq).2
    have hmax := ih htail
    have hsorted := pairwise_operatorRuns htail
    have hlater := lt_of_mem_operatorRuns hseq
    obtain ⟨hop, heq⟩ | ⟨hop, run, rest, hnext, heq⟩ | ⟨hop, hapart, heq⟩ :=
      operatorRuns_cons_cases k chars
    all_goals rw [heq]
    · have hsame : OperatorIn (k :: chars) = OperatorIn chars := by
        funext offset c
        exact propext (operatorIn_cons.trans (or_iff_right fun h => hop h.1))
      rw [hsame]
      exact hmax
    · rw [hnext] at hmax hsorted
      refine List.forall_mem_cons.2 ⟨(hmax _ List.mem_cons_self).extend hseq hop, fun r hr => ?_⟩
      have hlt := (List.pairwise_cons.1 hsorted).1 r hr
      exact (hmax r (List.mem_cons_of_mem _ hr)).of_ne hseq (Nat.ne_of_gt hlt)
    · -- the first run does not begin with the next byte, and the others are behind it
      have hafter : ∀ r ∈ operatorRuns chars, k.offset + 1 < r.1 := by
        cases hruns : operatorRuns chars with
        | nil => simp
        | cons first rest =>
          rw [hruns] at hlater hsorted hapart
          have hstart := hlater first List.mem_cons_self
          have hne := hapart first rfl
          refine List.forall_mem_cons.2 ⟨by omega, fun r hr => ?_⟩
          exact Nat.lt_of_le_of_lt hstart ((List.pairwise_cons.1 hsorted).1 r hr)
      refine List.forall_mem_cons.2 ⟨.single hseq hop fun c hc => ?_, fun r hr =>
        (hmax r hr).of_ne hseq (Nat.ne_of_gt (hafter r hr))⟩
      obtain ⟨r, hr, hle, -⟩ := exists_run_of_operatorIn hc
      have hlt := hafter r hr
      omega

/-- No two characters stand at one offset. -/
theorem eq_of_operatorIn {chars : List CodeChar} (hseq : InSequence chars) (offset : Nat)
    (c c' : Char) (h : OperatorIn chars offset c) (h' : OperatorIn chars offset c') : c = c' := by
  obtain ⟨k, hk, -, rfl, rfl⟩ := h
  obtain ⟨l, hl, -, hoffset, rfl⟩ := h'
  have hnodup : (chars.map CodeChar.offset).Nodup := by
    refine List.pairwise_map.2 (hseq.imp fun {k l} hle => ?_)
    have hpos := k.char.utf8Size_pos
    omega
  rw [List.inj_on_of_nodup_map hnodup hk hl hoffset.symm]

/-- The runs that are listed are the maximal ones, and no others. -/
theorem mem_operatorRuns_iff {chars : List CodeChar} (hseq : InSequence chars) {start : Nat}
    {run : Text} :
    (start, run) ∈ operatorRuns chars ↔ IsMaximalRun (OperatorIn chars) start run := by
  constructor
  · exact fun h => isMaximalRun_of_mem_operatorRuns hseq _ h
  · intro h
    have hpos := List.length_pos_iff.2 h.ne_nil
    obtain ⟨r, hr, hlo, hhi⟩ := exists_run_of_operatorIn (h.places 0 hpos)
    obtain ⟨rfl, rfl⟩ := h.unique (isMaximalRun_of_mem_operatorRuns hseq r hr)
      (eq_of_operatorIn hseq) _ ⟨Nat.le_refl _, by omega⟩ ⟨hlo, hhi⟩
    exact hr

/-- A run ends before the next one begins. -/
theorem pairwise_end_operatorRuns {chars : List CodeChar} (hseq : InSequence chars) :
    (operatorRuns chars).Pairwise fun r r' => r.1 + r.2.length ≤ r'.1 := by
  refine (pairwise_operatorRuns hseq).imp_of_mem fun {r r'} hr hr' hlt => ?_
  by_contra hle
  have hmax := isMaximalRun_of_mem_operatorRuns hseq r hr
  have hmax' := isMaximalRun_of_mem_operatorRuns hseq r' hr'
  have hpos := List.length_pos_iff.2 hmax'.ne_nil
  obtain ⟨hstart, -⟩ := hmax.unique hmax' (eq_of_operatorIn hseq) r'.1 ⟨by omega, by omega⟩
    ⟨Nat.le_refl _, by omega⟩
  omega

/-! ### Tokens with their offsets -/

/-- Tokens with their offsets, of which the first is at `start`. -/
def placedTokens (start : Nat) : List Text → List (Nat × Text)
  | [] => []
  | token :: rest => (start, token) :: placedTokens (start + token.length) rest

theorem mem_placedTokens_iff {start offset : Nat} {tokens : List Text} {token : Text} :
    (offset, token) ∈ placedTokens start tokens ↔
      ∃ before after, tokens = before ++ token :: after ∧
        offset = start + before.flatten.length := by
  induction tokens generalizing start with
  | nil => simp [placedTokens]
  | cons first tokens ih =>
    rw [placedTokens, List.mem_cons, ih]
    constructor
    · rintro (heq | ⟨before, after, rfl, rfl⟩)
      · cases heq
        exact ⟨[], tokens, rfl, rfl⟩
      · exact ⟨first :: before, after, rfl, by simp; omega⟩
    · rintro ⟨before, after, htokens, rfl⟩
      cases before with
      | nil =>
        obtain ⟨rfl, rfl⟩ := List.cons_eq_cons.1 htokens
        exact .inl rfl
      | cons t before =>
        obtain ⟨rfl, rfl⟩ := List.cons_eq_cons.1 htokens
        exact .inr ⟨before, after, rfl, by simp; omega⟩

/-- A token of a run lies between the ends of the run. -/
theorem bounds_of_mem_placedTokens {start : Nat} {tokens : List Text} :
    ∀ p ∈ placedTokens start tokens,
      start ≤ p.1 ∧ p.1 + p.2.length ≤ start + tokens.flatten.length := by
  rintro ⟨offset, token⟩ hp
  obtain ⟨before, after, rfl, rfl⟩ := mem_placedTokens_iff.1 hp
  simp only [List.flatten_append, List.flatten_cons, List.length_append]
  omega

/-- A token ends before the next one begins. -/
theorem pairwise_placedTokens (start : Nat) (tokens : List Text) :
    (placedTokens start tokens).Pairwise fun p q => p.1 + p.2.length ≤ q.1 := by
  induction tokens generalizing start with
  | nil => exact .nil
  | cons token tokens ih =>
    exact List.pairwise_cons.2 ⟨fun q hq => (bounds_of_mem_placedTokens q hq).1, ih _⟩

/-- All operators outside brackets, with their offsets. -/
def operatorPlaces (chars : List CodeChar) : List (Nat × Text) :=
  (operatorRuns chars).flatMap fun run => placedTokens run.1 (operatorTokens run.2)

theorem mem_operatorPlaces_iff {chars : List CodeChar} (hseq : InSequence chars) {offset : Nat}
    {token : Text} :
    (offset, token) ∈ operatorPlaces chars ↔
      ∃ start run before after, IsMaximalRun (OperatorIn chars) start run ∧
        LongestMatch run (before ++ token :: after) ∧ offset = start + before.flatten.length := by
  simp only [operatorPlaces, List.mem_flatMap, Prod.exists, mem_placedTokens_iff]
  constructor
  · rintro ⟨start, run, hrun, before, after, htokens, hoffset⟩
    have hmatch := (longestMatch_iff (isOperatorChar_of_mem_operatorRuns _ hrun)).2 htokens.symm
    exact ⟨start, run, before, after, (mem_operatorRuns_iff hseq).1 hrun, hmatch, hoffset⟩
  · rintro ⟨start, run, before, after, hmax, hmatch, hoffset⟩
    have hrun := (mem_operatorRuns_iff hseq).2 hmax
    have htokens := (longestMatch_iff (isOperatorChar_of_mem_operatorRuns _ hrun)).1 hmatch
    exact ⟨start, run, hrun, before, after, htokens.symm, hoffset⟩

/-- Operators are listed from left to right, and each ends before the next one begins. -/
theorem pairwise_operatorPlaces {chars : List CodeChar} (hseq : InSequence chars) :
    (operatorPlaces chars).Pairwise fun p q => p.1 + p.2.length ≤ q.1 := by
  have hlength : ∀ run ∈ operatorRuns chars,
      (operatorTokens run.2).flatten.length = run.2.length := by
    intro run hrun
    rw [((longestMatch_iff (isOperatorChar_of_mem_operatorRuns _ hrun)).2 rfl).flatten_eq]
  refine List.pairwise_flatMap.2 ⟨fun run _ => pairwise_placedTokens _ _,
    (pairwise_end_operatorRuns hseq).imp_of_mem fun {r r'} hr hr' hle p hp q hq => ?_⟩
  have hp' := bounds_of_mem_placedTokens p hp
  have hq' := bounds_of_mem_placedTokens q hq
  rw [hlength r hr] at hp'
  omega

theorem assignmentTokenEnd?_eq_find? (start : Nat) (tokens : List Text) :
    assignmentTokenEnd? start tokens =
      ((placedTokens start tokens).find? fun p => IsOneOf assignmentOperators p.2).map
        fun p => p.1 + p.2.length := by
  have hany : ∀ token : Text, assignmentOperators.any (·.toList == token) =
      decide (IsOneOf assignmentOperators token) := by
    intro token
    rw [Bool.eq_iff_iff, decide_eq_true_iff]
    simp [IsOneOf]
  induction tokens generalizing start with
  | nil => rfl
  | cons token tokens ih =>
    rw [assignmentTokenEnd?, placedTokens, List.find?_cons, hany, ih]
    cases hone : decide (IsOneOf assignmentOperators token) <;> rfl

/-- An assignment ends where the first assignment operator does. -/
theorem assignmentEnd?_eq_find? (chars : List CodeChar) :
    assignmentEnd? chars =
      ((operatorPlaces chars).find? fun p => IsOneOf assignmentOperators p.2).map
        fun p => p.1 + p.2.length := by
  rw [assignmentEnd?, operatorPlaces, List.find?_flatMap, List.map_findSome?]
  congr 1
  funext run
  exact assignmentTokenEnd?_eq_find? run.1 (operatorTokens run.2)

end Offside
