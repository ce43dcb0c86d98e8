import Offside.Proofs.CodeLines

/-!
# The first visible character of a line

Indentation is made of spaces, tabs and form feeds; white space is made of more.  So the indentation
of a line ends at the first visible character exactly if nothing but indentation stands before it,
and otherwise it ends earlier.  Before a block keyword there is never anything else.

* `Text.IsIndented`: only indentation before the first visible character;
* `Buffer.firstVisible`: where that character stands;
* `Buffer.indentationEnd_eq_firstVisible_iff`: where the indentation ends at it;
* `Document.firstVisible_of_isBlockHeader`: it does so in a block header.
-/

namespace Offside

namespace Text

variable {t : Text}

/-- Whether only indentation stands before the first visible character of a text. -/
def IsIndented (t : Text) : Prop := IsIndentation (t.takeWhile isWhiteSpace)

instance (t : Text) : Decidable t.IsIndented :=
  decidable_of_iff ((t.takeWhile isWhiteSpace).all isIndentChar = true) List.all_eq_true

/-- The white space before the first visible character is the indentation, and what else there is. -/
theorem takeWhile_isWhiteSpace (t : Text) :
    t.takeWhile isWhiteSpace = t.indentation ++ t.afterIndentation.takeWhile isWhiteSpace := by
  have hspaces : ∀ c ∈ t.indentation, isWhiteSpace c = true := fun c hc =>
    isWhiteSpace_of_isIndentChar (t.isIndentation_indentation c hc)
  conv_lhs => rw [← indentation_append_afterIndentation t]
  exact List.takeWhile_append_of_pos hspaces

/-- Other white space shows as white space after the indentation. -/
theorem isIndented_iff : t.IsIndented ↔ t.afterIndentation.takeWhile isWhiteSpace = [] := by
  rw [IsIndented, takeWhile_isWhiteSpace]
  constructor
  · intro h
    obtain ⟨r, hr⟩ := List.takeWhile_prefix (l := t.afterIndentation) isWhiteSpace
    have hnone := t.indentation_afterIndentation
    rw [← hr, indentation_append fun c hc => h c (List.mem_append_right _ hc)] at hnone
    exact (List.append_eq_nil_iff.1 hnone).1
  · intro h
    rw [h, List.append_nil]
    exact t.isIndentation_indentation

theorem IsIndented.afterIndentation_eq (h : t.IsIndented) : t.afterIndentation = t.trimStart := by
  have hsplit : t.afterIndentation.takeWhile isWhiteSpace ++ t.afterIndentation.trimStart =
      t.afterIndentation := List.takeWhile_append_dropWhile
  rw [isIndented_iff.1 h, List.nil_append, trimStart_afterIndentation] at hsplit
  exact hsplit.symm

/-- On a line that starts with a block keyword there is no other white space than indentation before
it. -/
theorem isIndented_of_blockKeyword? (h : (blockKeyword? t).isSome = true) : t.IsIndented := by
  obtain ⟨c, hhead, hspace, -⟩ := head?_of_blockKeyword? h
  obtain ⟨r, hr⟩ : ∃ r, t.afterIndentation = c :: r := List.head?_eq_some_iff.1 hhead
  rw [isIndented_iff, hr, List.takeWhile_cons_of_neg (by simp [hspace])]

end Text

namespace Buffer

variable {b : Buffer} {line : Nat}

/-- The offset of the first character of a line that is not white space, or the end of its text. -/
def firstVisible (b : Buffer) (line : Nat) : Nat :=
  b.lineStart line + Text.size ((b.lineText line).takeWhile isWhiteSpace)

/-- The indentation of a line ends at or before its first visible character. -/
theorem firstVisible_eq (b : Buffer) (line : Nat) :
    b.firstVisible line =
      b.indentationEnd line +
        Text.size ((b.lineText line).afterIndentation.takeWhile isWhiteSpace) := by
  rw [firstVisible, Text.takeWhile_isWhiteSpace, Text.size_append, ← Nat.add_assoc]
  rfl

/-- The indentation of a line ends at its first visible character exactly if only indentation stands
before it. -/
theorem indentationEnd_eq_firstVisible_iff :
    b.indentationEnd line = b.firstVisible line ↔ (b.lineText line).IsIndented := by
  rw [firstVisible_eq, Text.isIndented_iff, ← Text.size_eq_zero_iff]
  omega

theorem firstVisible_of_blockKeyword? (h : (blockKeyword? (b.lineText line)).isSome = true) :
    b.firstVisible line = b.indentationEnd line :=
  (indentationEnd_eq_firstVisible_iff.2 (Text.isIndented_of_blockKeyword? h)).symm

end Buffer

/-- The indentation of a block header ends at its keyword. -/
theorem Document.firstVisible_of_isBlockHeader {d : Document} {header : Nat}
    (hstart : d.statementStart header = header) (h : d.isBlockHeader header = true) :
    d.buffer.firstVisible header = d.buffer.indentationEnd header := by
  unfold isBlockHeader at h
  dsimp only at h
  rw [hstart, Bool.and_eq_true_iff] at h
  exact Buffer.firstVisible_of_blockKeyword? h.1

end Offside
