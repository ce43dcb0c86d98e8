import Offside.Files

/-!
# Writing a file

Writing replaces the text of one file.  All paths lead where they did before, and what stands at
other places stays.

* `Tree.content_replaced_self`, `content_replaced_of_ne`: what stands at a place after writing;
* `Tree.resolve_replaced`: where paths lead;
* `Tree.lookup_write`, `lookup_write_of_ne`: reading back what was written, and what stands
  elsewhere.
-/

namespace Offside

namespace Tree

variable {t : Tree} {way way' : List Text} {old new : Text} {path : String}

/-- What is kept at a path, with another text if the path is the one of a way. -/
def replaceEntry (way : List Text) (new : Text) (e : String × TreeEntry) : String × TreeEntry :=
  if names e.1 == way then (e.1, .text new) else e

/-- The working directory with another text in the file at the end of a way. -/
def replaced (t : Tree) (way : List Text) (new : Text) : Tree := t.map (replaceEntry way new)

theorem replaceEntry_of_eq {e : String × TreeEntry} (h : names e.1 = way) (new : Text) :
    replaceEntry way new e = (e.1, .text new) := by
  rw [replaceEntry, if_pos (by rwa [beq_iff_eq])]

theorem replaceEntry_of_ne {e : String × TreeEntry} (h : names e.1 ≠ way) (new : Text) :
    replaceEntry way new e = e := by
  rw [replaceEntry, if_neg (by rwa [beq_iff_eq])]

/-! ### Places -/

/-- The file at the end of a way holds the new text. -/
theorem content_replaced_self (h : t.content (.within way) = .text old) (new : Text) :
    (t.replaced way new).content (.within way) = .text new := by
  have hpred : (fun e => names e.1 == way && e.2 != .directory) ∘ replaceEntry way new =
      fun e => names e.1 == way := by
    funext e
    by_cases hway : names e.1 = way
    · simp [replaceEntry_of_eq hway, hway]
    · simp [replaceEntry_of_ne hway, hway]
  obtain ⟨e, hmem, he⟩ : ∃ e ∈ t, (names e.1 == way) = true := by
    rw [content] at h
    cases hfind : t.find? fun e => names e.1 == way && e.2 != .directory with
    | none =>
      rw [hfind] at h
      dsimp only at h
      split at h <;> cases h
    | some e =>
      have hprop := List.find?_some hfind
      rw [Bool.and_eq_true] at hprop
      exact ⟨e, List.mem_of_find?_eq_some hfind, hprop.1⟩
  obtain ⟨f, hf⟩ := Option.isSome_iff_exists.1
    (List.find?_isSome.2 ⟨e, hmem, he⟩ : (t.find? fun e => names e.1 == way).isSome = true)
  have hway : names f.1 = way := by simpa using List.find?_some hf
  rw [content, replaced, List.find?_map, hpred, hf, Option.map_some, replaceEntry_of_eq hway]

/-- What stands at other places stays. -/
theorem content_replaced_of_ne (hne : way' ≠ way) (new : Text) :
    (t.replaced way new).content (.within way') = t.content (.within way') := by
  have hother : (way == way') = false := beq_eq_false_iff_ne.2 hne.symm
  have hpred : (fun e => names e.1 == way' && e.2 != .directory) ∘ replaceEntry way new =
      fun e => names e.1 == way' && e.2 != .directory := by
    funext e
    by_cases hway : names e.1 = way
    · simp [replaceEntry_of_eq hway, hway, hother, bne]
    · simp [replaceEntry_of_ne hway]
  have hbelow : (fun e => way'.isPrefixOf (names e.1) && (names e.1 != way' || e.2 == .directory)) ∘
      replaceEntry way new =
        fun e => way'.isPrefixOf (names e.1) && (names e.1 != way' || e.2 == .directory) := by
    funext e
    by_cases hway : names e.1 = way
    · simp [replaceEntry_of_eq hway, hway, hother, bne]
    · simp [replaceEntry_of_ne hway]
  have hdirectory : (t.replaced way new).isDirectory way' = t.isDirectory way' := by
    rw [isDirectory, isDirectory, replaced, List.any_map, hbelow]
  rw [content, content, hdirectory, replaced, List.find?_map, hpred]
  cases hfind : t.find? fun e => names e.1 == way' && e.2 != .directory with
  | none => rfl
  | some e =>
    have hway' : names e.1 = way' ∧ e.2 ≠ .directory := by simpa using List.find?_some hfind
    rw [Option.map_some, replaceEntry_of_ne (hway'.1 ▸ hne)]

/-! ### Paths -/

/-- Paths lead where they did, as no path leads through a file. -/
theorem walk_replaced (h : t.content (.within way) = .text old) (here : Place) (parts : List Text) :
    (t.replaced way new).walk here parts = t.walk here parts := by
  induction parts generalizing here with
  | nil => rfl
  | cons part rest ih =>
    rw [walk.eq_def, walk.eq_def t]
    dsimp only
    by_cases hhere : here = .within way
    · subst hhere
      rw [h, content_replaced_self h new]
    · have hcontent : (t.replaced way new).content here = t.content here := by
        cases here with
        | around => rfl
        | within way' => exact content_replaced_of_ne (fun e => hhere (by rw [e])) new
      rw [hcontent]
      simp only [ih]

theorem resolve_replaced (h : t.content (.within way) = .text old) (path : String) :
    (t.replaced way new).resolve path = t.resolve path := by
  rw [resolve, resolve, walk_replaced h]

/-- No file is found where a path cannot be followed. -/
theorem isFile_of_walk_error {here : Place} {parts : List Text} {reason : Found}
    (h : t.walk here parts = .error reason) : reason.isFile = false := by
  induction parts generalizing here with
  | nil => cases h
  | cons part rest ih =>
    rw [walk.eq_def] at h
    dsimp only at h
    split at h
    · split at h
      · exact ih h
      split at h
      · exact ih h
      split at h
      · cases h
        rfl
      split at h
      · cases h
        rfl
      · exact ih h
    · cases h
      rfl
    · cases h
      rfl

/-- A path to a file leads into the working directory. -/
theorem resolve_of_lookup (h : t.lookup path = .text old) :
    ∃ way, t.resolve path = .ok (.within way) ∧ t.content (.within way) = .text old := by
  rw [lookup] at h
  cases hplace : t.resolve path with
  | ok place =>
    rw [hplace] at h
    cases place with
    | around => cases h
    | within way => exact ⟨way, rfl, h⟩
  | error reason =>
    rw [hplace] at h
    have hreason : reason = .text old := h
    subst hreason
    have hfile : (Found.text old).isFile = false := by
      rw [resolve] at hplace
      split at hplace
      · cases hplace
      split at hplace
      · cases hplace
      split at hplace
      · cases hplace
      · exact isFile_of_walk_error hplace
    cases hfile

/-- Writing to a file replaces the text at the place that its path leads to. -/
theorem exists_write_eq_replaced (h : t.lookup path = .text old) (new : Text) :
    ∃ way, t.resolve path = .ok (.within way) ∧ t.content (.within way) = .text old ∧
      t.write path new = t.replaced way new := by
  obtain ⟨way, hway, hcontent⟩ := resolve_of_lookup h
  refine ⟨way, hway, hcontent, ?_⟩
  rw [write, hway]
  rfl

/-- What was written to a file is read back. -/
theorem lookup_write (h : t.lookup path = .text old) (new : Text) :
    (t.write path new).lookup path = .text new := by
  obtain ⟨way, hway, hcontent, hwrite⟩ := exists_write_eq_replaced h new
  rw [lookup, hwrite, resolve_replaced hcontent, hway]
  exact content_replaced_self hcontent new

/-- After writing to a file all paths lead where they did. -/
theorem resolve_write (h : t.lookup path = .text old) (new : Text) (other : String) :
    (t.write path new).resolve other = t.resolve other := by
  obtain ⟨way, -, hcontent, hwrite⟩ := exists_write_eq_replaced h new
  rw [hwrite, resolve_replaced hcontent]

/-- After writing to a file, paths that lead elsewhere find what they did. -/
theorem lookup_write_of_ne (h : t.lookup path = .text old) (new : Text) {other : String}
    (hne : t.resolve other ≠ t.resolve path) : (t.write path new).lookup other = t.lookup other := by
  obtain ⟨way, hway, hcontent, hwrite⟩ := exists_write_eq_replaced h new
  rw [lookup, lookup, resolve_write h, hwrite]
  cases hplace : t.resolve other with
  | error reason => rfl
  | ok place =>
    cases place with
    | around => rfl
    | within way' =>
      refine content_replaced_of_ne (fun hsame => hne ?_) new
      rw [hplace, hway, hsame]

end Tree

end Offside
