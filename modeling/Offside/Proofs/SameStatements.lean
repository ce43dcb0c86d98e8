import Offside.Proofs.Statement

/-!
# Documents with the same statements

How lines form statements, and which statements are met going up and down, depends only on the
number of lines, on which of them continue, and on which of them are without code.

* `SameStatements`: two documents that agree in this;
* `SameStatements.statementStart_eq`, `statementEnd_eq`: the statement of a line;
* `SameStatements.statementsAbove_eq`, `statementsAfter_eq`: the statements on either side of it.
-/

namespace Offside

/-- Two documents with as many lines, of which the same ones continue and the same ones are without
code. -/
structure SameStatements (d e : Document) : Prop where
  lineCount_eq : d.lineCount = e.lineCount
  continues_eq : ∀ m, d.continues m = e.continues m
  isBlankOrComment_eq : ∀ m, d.isBlankOrComment m = e.isBlankOrComment m

namespace SameStatements

variable {d e : Document}

theorem clampLine_eq (h : SameStatements d e) (m : Nat) :
    d.buffer.clampLine m = e.buffer.clampLine m :=
  Buffer.clampLine_congr h.lineCount_eq m

/-! ### The statement of a line -/

theorem startFrom_eq (h : SameStatements d e) (m : Nat) : d.startFrom m = e.startFrom m := by
  induction m with
  | zero => rfl
  | succ n ih =>
    cases n with
    | zero => rfl
    | succ n => rw [Document.startFrom, Document.startFrom, h.continues_eq, ih]

theorem statementStart_eq (h : SameStatements d e) (m : Nat) :
    d.statementStart m = e.statementStart m := by
  rw [Document.statementStart, Document.statementStart, h.clampLine_eq, h.startFrom_eq]

theorem endFrom_eq (h : SameStatements d e) (n m : Nat) : d.endFrom n m = e.endFrom n m := by
  induction n generalizing m with
  | zero => rfl
  | succ n ih => rw [Document.endFrom, Document.endFrom, h.continues_eq, ih]

theorem statementEnd_eq (h : SameStatements d e) (m : Nat) :
    d.statementEnd m = e.statementEnd m := by
  rw [Document.statementEnd, Document.statementEnd, h.clampLine_eq, h.lineCount_eq, h.endFrom_eq]

/-! ### Lines with code -/

theorem previousCodeLine?_eq (h : SameStatements d e) (m : Nat) :
    d.previousCodeLine? m = e.previousCodeLine? m := by
  induction m with
  | zero => rfl
  | succ n ih =>
    cases n with
    | zero => rfl
    | succ n =>
      rw [Document.previousCodeLine?, Document.previousCodeLine?, h.isBlankOrComment_eq, ih]

theorem nextCodeLine?_eq (h : SameStatements d e) (m : Nat) :
    d.nextCodeLine? m = e.nextCodeLine? m := by
  have hfun : (fun l => !d.isBlankOrComment l) = fun l => !e.isBlankOrComment l := by
    funext l
    rw [h.isBlankOrComment_eq]
  rw [Document.nextCodeLine?, Document.nextCodeLine?, hfun, h.lineCount_eq]

/-! ### Neighbouring statements -/

theorem previousStatement?_eq (h : SameStatements d e) (m : Nat) :
    d.previousStatement? m = e.previousStatement? m := by
  have hfun : d.statementStart = e.statementStart := funext h.statementStart_eq
  rw [Document.previousStatement?, Document.previousStatement?, h.previousCodeLine?_eq, hfun]

theorem aboveFrom_eq (h : SameStatements d e) (n m : Nat) : d.aboveFrom n m = e.aboveFrom n m := by
  induction n generalizing m with
  | zero => rfl
  | succ n ih =>
    rw [Document.aboveFrom, Document.aboveFrom, h.previousStatement?_eq]
    cases e.previousStatement? m with
    | none => rfl
    | some start => exact congrArg (List.cons start) (ih start)

theorem statementsAbove_eq (h : SameStatements d e) (m : Nat) :
    d.statementsAbove m = e.statementsAbove m := by
  rw [Document.statementsAbove, Document.statementsAbove, h.lineCount_eq, h.aboveFrom_eq]

theorem afterFrom_eq (h : SameStatements d e) (n m : Nat) : d.afterFrom n m = e.afterFrom n m := by
  induction n generalizing m with
  | zero => rfl
  | succ n ih =>
    rw [Document.afterFrom, Document.afterFrom, h.nextCodeLine?_eq]
    cases e.nextCodeLine? m with
    | none => rfl
    | some start =>
      dsimp only
      rw [h.statementEnd_eq, ih]

theorem statementsAfter_eq (h : SameStatements d e) (m : Nat) :
    d.statementsAfter m = e.statementsAfter m := by
  rw [Document.statementsAfter, Document.statementsAfter, h.lineCount_eq, h.afterFrom_eq]

theorem statementsBelow_eq (h : SameStatements d e) (m : Nat) :
    d.statementsBelow m = e.statementsBelow m := by
  rw [Document.statementsBelow, Document.statementsBelow, h.statementEnd_eq, h.statementsAfter_eq]

end SameStatements

end Offside
