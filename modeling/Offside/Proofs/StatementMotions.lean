import Offside.Proofs.Enclosing

/-!
# Going forward and back over statements

Going forward leaves the statement at its end and looks for the next line with code; going back
looks for the nearest line with code above and goes on to the start of its statement.  Both lead to
the neighbouring statement, so each undoes the other, and going forward from the first statement
meets them all.

* `Document.Adjacent`: statements with no code between them;
* `Document.nextStatement?_eq_some_iff`, `previousStatement?_eq_some_iff`: both searches find the
  neighbour;
* `Document.statementAt?_indentationEnd`: the statement at the start of a statement;
* `Document.Visits`: the offsets that a motion leads to when it is repeated;
* `statement_motions_invert`.
-/

namespace Offside

/-- The first element of an ordered list is the one with nothing in the list before it. -/
theorem head?_eq_some_iff_of_pairwise {r : Nat → Nat → Prop} (hr : ∀ {a b}, r a b → ¬ r b a)
    {l : List Nat} (h : l.Pairwise r) {m : Nat} :
    l.head? = some m ↔ m ∈ l ∧ ∀ k ∈ l, ¬ r k m := by
  cases l with
  | nil => simp
  | cons a l =>
    obtain ⟨ha, -⟩ := List.pairwise_cons.1 h
    rw [List.head?_cons, Option.some_inj]
    constructor
    · rintro rfl
      refine ⟨List.mem_cons_self, fun k hk => ?_⟩
      rcases List.mem_cons.1 hk with rfl | hk
      · exact fun hself => hr hself hself
      · exact hr (ha k hk)
    · rintro ⟨hm, hfirst⟩
      rcases List.mem_cons.1 hm with rfl | hm
      · rfl
      · exact absurd (ha m hm) (hfirst a List.mem_cons_self)

namespace Document

variable {d : Document} {line s t : Nat}

/-! ### Neighbours -/

/-- Whether a line lies above another one and no statement with code starts between them. -/
def Adjacent (d : Document) (s t : Nat) : Prop :=
  s < t ∧ ∀ k, d.StartsCode k → ¬ (s < k ∧ k < t)

/-- The next statement is the nearest one that starts below. -/
theorem nextStatement?_eq_some_iff (hone : 1 ≤ s) (hle : s ≤ d.lineCount) :
    d.nextStatement? s = some t ↔ d.StartsCode t ∧ d.Adjacent s t := by
  have hhead : d.nextStatement? s = (d.statementsBelow s).head? := by
    rw [statementsBelow_eq]
    cases d.nextStatement? s <;> rfl
  have hsorted : (d.statementsBelow s).Pairwise (· < ·) := d.pairwise_statementsAfter _
  rw [hhead, head?_eq_some_iff_of_pairwise Nat.lt_asymm hsorted]
  simp only [mem_statementsBelow_iff hone hle, Adjacent]
  constructor
  · rintro ⟨⟨ht, hlt⟩, hfirst⟩
    exact ⟨ht, hlt, fun k hk hbetween => hfirst k ⟨hk, hbetween.1⟩ hbetween.2⟩
  · rintro ⟨ht, hlt, hbetween⟩
    exact ⟨⟨ht, hlt⟩, fun k hk hkt => hbetween k hk.1 ⟨hk.2, hkt⟩⟩

/-- The previous statement is the nearest one that starts above. -/
theorem previousStatement?_eq_some_iff (hline : t ≤ d.lineCount + 1) :
    d.previousStatement? t = some s ↔ d.StartsCode s ∧ d.Adjacent s t := by
  have hhead : d.previousStatement? t = (d.statementsAbove t).head? := by
    rw [statementsAbove_eq hline]
    cases d.previousStatement? t <;> rfl
  rw [hhead, head?_eq_some_iff_of_pairwise Nat.lt_asymm (d.pairwise_statementsAbove t)]
  simp only [mem_statementsAbove_iff hline, Adjacent]
  constructor
  · rintro ⟨⟨hs, hlt⟩, hfirst⟩
    exact ⟨hs, hlt, fun k hk hbetween => hfirst k ⟨hk, hbetween.2⟩ hbetween.1⟩
  · rintro ⟨hs, hlt, hbetween⟩
    exact ⟨⟨hs, hlt⟩, fun k hk hsk => hbetween k hk.1 ⟨hsk, hk.2⟩⟩

/-! ### Motions from the start of a statement -/

/-- The statement at the start of a statement with code is that statement. -/
theorem statementAt?_indentationEnd (hs : d.StartsCode s) :
    d.statementAt? (d.buffer.indentationEnd s) = some s := by
  obtain ⟨hone, hle⟩ := hs.mem
  simp [statementAt?, codeLineAtOrBefore?, Buffer.lineOfOffset_indentationEnd hone hle, hs.1, hs.2]

theorem forwardStatement_indentationEnd (hs : d.StartsCode s) :
    d.forwardStatement (d.buffer.indentationEnd s) =
      (d.nextStatement? s).map d.buffer.indentationEnd := by
  obtain ⟨hone, hle⟩ := hs.mem
  simp [forwardStatement, Buffer.lineOfOffset_indentationEnd hone hle, hs.2]

theorem backwardStatement_indentationEnd (hs : d.StartsCode s) :
    d.backwardStatement (d.buffer.indentationEnd s) =
      (d.previousStatement? s).map d.buffer.indentationEnd := by
  simp [backwardStatement, statementAt?_indentationEnd hs]

/-! ### Repeated motions -/

/-- What a motion leads to from an offset when it is repeated until it leads nowhere: the offsets
that it comes to, one after the other. -/
inductive Visits (d : Document) (motion : Motion) : Nat → List Nat → Prop
  | stop {offset : Nat} (h : d.move offset motion = none) : Visits d motion offset []
  | go {offset target : Nat} {targets : List Nat} (h : d.move offset motion = some target)
      (rest : Visits d motion target targets) : Visits d motion offset (target :: targets)

/-- Going forward from a statement visits those below it. -/
theorem visits_forwardStatement (hs : d.StartsCode s) :
    d.Visits .forwardStatement (d.buffer.indentationEnd s)
      ((d.statementsBelow s).map d.buffer.indentationEnd) := by
  induction hn : d.lineCount - s using Nat.strong_induction_on generalizing s with
  | _ n ih =>
    obtain ⟨hone, hle⟩ := hs.mem
    have hmove : d.move (d.buffer.indentationEnd s) .forwardStatement =
        (d.nextStatement? s).map d.buffer.indentationEnd := forwardStatement_indentationEnd hs
    rw [statementsBelow_eq]
    cases hnext : d.nextStatement? s with
    | none =>
      rw [hnext] at hmove
      exact .stop hmove
    | some t =>
      obtain ⟨ht, hlt, -⟩ := (nextStatement?_eq_some_iff hone hle).1 hnext
      have hcount := ht.mem.2
      rw [hnext] at hmove
      exact .go hmove (ih (d.lineCount - t) (by omega) ht rfl)

/-- The first lines of all statements with code, from top to bottom. -/
def codeStatements (d : Document) : List Nat :=
  (List.range (d.lineCount + 1)).filter fun l => decide (d.StartsCode l)

theorem mem_codeStatements_iff : line ∈ d.codeStatements ↔ d.StartsCode line := by
  rw [codeStatements, List.mem_filter, List.mem_range, decide_eq_true_eq]
  constructor
  · exact fun h => h.2
  · exact fun h => ⟨Nat.lt_succ_of_le h.mem.2, h⟩

theorem pairwise_codeStatements (d : Document) : d.codeStatements.Pairwise (· < ·) :=
  List.pairwise_lt_range.filter _

/-- After the first of all statements come those below it. -/
theorem statementsBelow_of_codeStatements {first : Nat} {rest : List Nat}
    (h : d.codeStatements = first :: rest) : d.statementsBelow first = rest := by
  have hsorted := d.pairwise_codeStatements
  have hmem : ∀ k, k ∈ first :: rest ↔ d.StartsCode k := by
    intro k
    rw [← h, mem_codeStatements_iff]
  rw [h, List.pairwise_cons] at hsorted
  obtain ⟨hone, hle⟩ := ((hmem first).1 List.mem_cons_self).mem
  refine (d.pairwise_statementsAfter _).eq_of_mem_iff hsorted.2 fun k => ?_
  rw [← statementsBelow, mem_statementsBelow_iff hone hle, ← hmem k, List.mem_cons]
  constructor
  · rintro ⟨rfl | hk, hlt⟩
    · omega
    · exact hk
  · exact fun hk => ⟨.inr hk, hsorted.1 k hk⟩

end Document

/-- **Going forward and going back over statements undo each other.**  Of two statements with code
the second is the next one after the first exactly if the first is the previous one before the
second, and exactly if the first starts above the second with no statement with code between them.
So if going forward from the start of one leads somewhere, going back from there leads to it again,
and the other way round.  Going forward again and again from the first statement visits the starts
of all others, each once and in order. -/
theorem statement_motions_invert (d : Document) :
    (∀ s t, d.StartsCode s → d.StartsCode t →
      (d.nextStatement? s = some t ↔ d.previousStatement? t = some s) ∧
      (d.previousStatement? t = some s ↔ s < t ∧ ∀ k, d.StartsCode k → ¬ (s < k ∧ k < t))) ∧
    (∀ s, d.StartsCode s →
      (∀ q, d.forwardStatement (d.buffer.indentationEnd s) = some q →
        d.backwardStatement q = some (d.buffer.indentationEnd s)) ∧
      ∀ p, d.backwardStatement (d.buffer.indentationEnd s) = some p →
        d.forwardStatement p = some (d.buffer.indentationEnd s)) ∧
    (∀ line, line ∈ d.codeStatements ↔ d.StartsCode line) ∧
    (d.codeStatements.map d.buffer.indentationEnd).Pairwise (· < ·) ∧
    ∀ first rest, d.codeStatements = first :: rest →
      d.Visits .forwardStatement (d.buffer.indentationEnd first)
        (rest.map d.buffer.indentationEnd) := by
  have hnext : ∀ s t, d.StartsCode s → d.StartsCode t →
      (d.nextStatement? s = some t ↔ d.Adjacent s t) := by
    intro s t hs ht
    rw [Document.nextStatement?_eq_some_iff hs.mem.1 hs.mem.2, and_iff_right ht]
  have hprevious : ∀ s t, d.StartsCode s → d.StartsCode t →
      (d.previousStatement? t = some s ↔ d.Adjacent s t) := by
    intro s t hs ht
    rw [Document.previousStatement?_eq_some_iff (Nat.le_succ_of_le ht.mem.2), and_iff_right hs]
  refine ⟨fun s t hs ht => ⟨?_, hprevious s t hs ht⟩, fun s hs => ⟨?_, ?_⟩,
    fun line => Document.mem_codeStatements_iff, ?_, ?_⟩
  · rw [hnext s t hs ht, hprevious s t hs ht]
  · intro q hq
    rw [Document.forwardStatement_indentationEnd hs] at hq
    obtain ⟨t, hst, rfl⟩ := Option.map_eq_some_iff.1 hq
    obtain ⟨ht, hadjacent⟩ := (Document.nextStatement?_eq_some_iff hs.mem.1 hs.mem.2).1 hst
    rw [Document.backwardStatement_indentationEnd ht, (hprevious s t hs ht).2 hadjacent,
      Option.map_some]
  · intro p hp
    rw [Document.backwardStatement_indentationEnd hs] at hp
    obtain ⟨r, hrs, rfl⟩ := Option.map_eq_some_iff.1 hp
    obtain ⟨hr, hadjacent⟩ :=
      (Document.previousStatement?_eq_some_iff (Nat.le_succ_of_le hs.mem.2)).1 hrs
    rw [Document.forwardStatement_indentationEnd hr, (hnext r s hr hs).2 hadjacent,
      Option.map_some]
  · refine List.pairwise_map.2 (d.pairwise_codeStatements.imp_of_mem fun ha hb hlt => ?_)
    exact Buffer.indentationEnd_lt_indentationEnd (Document.mem_codeStatements_iff.1 ha).mem.1 hlt
      (Document.mem_codeStatements_iff.1 hb).mem.2
  · intro first rest hlist
    have hfirst : d.StartsCode first :=
      Document.mem_codeStatements_iff.1 (hlist ▸ List.mem_cons_self)
    rw [← Document.statementsBelow_of_codeStatements hlist]
    exact Document.visits_forwardStatement hfirst

/-- A statement with a blank line and a comment in its brackets, and the statements around it. -/
theorem statement_motions_invert_around_brackets :
    let d := Document.ofText "a\n# b\nc = [\n\n# e\n]\nif f: \\\n  g\n".toList
    (d.StartsCode 3 ∧ d.StartsCode 7) ∧
      (d.nextStatement? 3 = some 7 ∧ d.previousStatement? 7 = some 3) ∧
      (d.forwardStatement 6 = some 19 ∧ d.backwardStatement 19 = some 6) ∧
      d.codeStatements = [1, 3, 7] ∧ d.Visits .forwardStatement 0 [6, 19] := by
  intro d
  have hthree : d.StartsCode 3 := by decide +kernel
  have hseven : d.StartsCode 7 := by decide +kernel
  have hnext : d.nextStatement? 3 = some 7 := by decide +kernel
  have hforward : d.forwardStatement (d.buffer.indentationEnd 3) = some 19 := by decide +kernel
  have hlist : d.codeStatements = [1, 3, 7] := by decide +kernel
  have hone : d.buffer.indentationEnd 1 = 0 := by decide +kernel
  have hsix : d.buffer.indentationEnd 3 = 6 := by decide +kernel
  have hlast : d.buffer.indentationEnd 7 = 19 := by decide +kernel
  obtain ⟨hinverse, hmotions, -, -, hvisits⟩ := statement_motions_invert d
  have hback := (hmotions 3 hthree).1 19 hforward
  have hall := hvisits 1 [3, 7] hlist
  rw [hsix] at hforward hback
  rw [List.map_cons, List.map_cons, List.map_nil, hone, hsix, hlast] at hall
  exact ⟨⟨hthree, hseven⟩, ⟨hnext, (hinverse 3 7 hthree hseven).1.1 hnext⟩, ⟨hforward, hback⟩,
    hlist, hall⟩

end Offside
