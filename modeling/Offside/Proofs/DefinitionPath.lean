import Offside.Proofs.DefinitionBounds
import Mathlib.Data.List.Chain

/-!
# The path of definitions

The path at an offset ends with the name of the definition there; before it comes the name of the
innermost definition around that one, and so on.  Other headers on the way are passed over.  Each
definition on the path lies in the blocks of those named before it, and the path at one of them is
the part of the path down to it.

* `Document.Nested`, `pairwise_definitionsFrom`: each lies in the block of the next one;
* `Document.definitionsFrom_of_append`: the path at a definition on the path;
* `Document.map_some_definitionPath`: the names on the path;
* `definition_path_is_nested`.
-/

namespace Offside

/-- A list of results none of which is missing, taken together. -/
theorem map_some_filterMap {α β : Type} {f : α → Option β} {l : List α}
    (h : ∀ a ∈ l, (f a).isSome = true) : (l.filterMap f).map some = l.map f := by
  induction l with
  | nil => rfl
  | cons a l ih =>
    obtain ⟨ha, hl⟩ := List.forall_mem_cons.1 h
    obtain ⟨b, hb⟩ := Option.isSome_iff_exists.1 ha
    rw [List.filterMap_cons, hb, List.map_cons, List.map_cons, ih hl, hb]

namespace Document

variable {d : Document} {header inner k middle offset outer : Nat}

/-! ### The definitions on the path -/

/-- The definitions from one on the path of another are those listed from there on. -/
theorem definitionsFrom_of_append {pre suf : List Nat} (hle : header ≤ d.lineCount)
    (h : d.definitionsFrom header = pre ++ k :: suf) : d.definitionsFrom k = k :: suf := by
  induction pre generalizing header with
  | nil =>
    obtain ⟨rfl, -⟩ := List.cons_eq_cons.1 h
    exact h
  | cons l pre ih =>
    rw [definitionsFrom_eq hle] at h
    obtain ⟨-, hrest⟩ := List.cons_eq_cons.1 h
    cases hfind : (d.enclosingHeaders header).find? d.isDefinition with
    | none => simp [hfind] at hrest
    | some outer =>
      have hlt := (mem_enclosingHeaders (List.mem_of_find?_eq_some hfind)).2
      rw [hfind, Option.elim_some] at hrest
      exact ih (by omega) hrest

/-- Each definition on the path is the innermost one around the one before it. -/
theorem isChain_definitionsFrom (hle : header ≤ d.lineCount) :
    (d.definitionsFrom header).IsChain fun inner outer =>
      (d.enclosingHeaders inner).find? d.isDefinition = some outer := by
  induction header using Nat.strong_induction_on with
  | _ header ih =>
    rw [definitionsFrom_eq hle]
    cases hfind : (d.enclosingHeaders header).find? d.isDefinition with
    | none => exact .singleton header
    | some outer =>
      have hlt := (mem_enclosingHeaders (List.mem_of_find?_eq_some hfind)).2
      refine List.isChain_cons.2 ⟨?_, ih outer hlt (by omega)⟩
      intro first hfirst
      cases hfirst
      exact hfind

/-- Around the last definition on the path there is no other. -/
theorem find?_of_getLast?_definitionsFrom (hle : header ≤ d.lineCount)
    (h : (d.definitionsFrom header).getLast? = some outer) :
    (d.enclosingHeaders outer).find? d.isDefinition = none := by
  obtain ⟨pre, hlist⟩ := List.getLast?_eq_some_iff.1 h
  have hlast := definitionsFrom_of_append hle hlist
  rw [definitionsFrom] at hlast
  obtain ⟨-, hnone⟩ := List.cons_eq_cons.1 hlast
  rw [← List.head?_filter, hnone, List.head?_nil]

/-! ### Nesting -/

/-- Whether a statement lies in the block of another one, deeper than it. -/
structure Nested (d : Document) (outer inner : Nat) : Prop where
  lt : outer < inner
  indentation_lt : d.buffer.indentation outer < d.buffer.indentation inner
  blockEnd_le : d.blockEnd inner ≤ d.blockEnd outer

theorem Nested.trans (h : d.Nested outer middle) (h' : d.Nested middle inner) :
    d.Nested outer inner where
  lt := Nat.lt_trans h.lt h'.lt
  indentation_lt := Nat.lt_trans h.indentation_lt h'.indentation_lt
  blockEnd_le := Nat.le_trans h'.blockEnd_le h.blockEnd_le

theorem Encloses.nested (h : d.Encloses outer inner) (hinner : d.StartsCode inner) :
    d.Nested outer inner where
  lt := h.lt
  indentation_lt := h.inBlock.2 inner hinner h.lt (Nat.le_refl inner)
  blockEnd_le := blockEnd_le_of_inBlock h.startsCode hinner h.inBlock

/-- The statements on the path are definitions. -/
theorem isDefinition_of_mem_definitionsFrom (hheader : d.StartsCode header)
    (hdef : d.isDefinition header = true) (hk : k ∈ d.definitionsFrom header) :
    d.StartsCode k ∧ d.isDefinition k = true := by
  rcases List.mem_cons.1 hk with rfl | hk
  · exact ⟨hheader, hdef⟩
  · obtain ⟨haround, hk⟩ := List.mem_filter.1 hk
    exact ⟨(encloses_of_mem_enclosingHeaders hheader haround).startsCode, hk⟩

/-- Each definition on the path lies in the blocks of those listed after it. -/
theorem pairwise_definitionsFrom (hheader : d.StartsCode header) :
    (d.definitionsFrom header).Pairwise fun inner outer => d.Nested outer inner := by
  induction header using Nat.strong_induction_on with
  | _ header ih =>
    rw [definitionsFrom_eq hheader.mem.2]
    cases hfind : (d.enclosingHeaders header).find? d.isDefinition with
    | none => exact List.pairwise_singleton _ _
    | some outer =>
      have hencloses :=
        encloses_of_mem_enclosingHeaders hheader (List.mem_of_find?_eq_some hfind)
      have hrest := ih outer hencloses.lt hencloses.startsCode
      have hnested := hencloses.nested hheader
      refine List.pairwise_cons.2 ⟨fun k hk => ?_, hrest⟩
      rcases List.mem_cons.1 hk with rfl | hk
      · exact hnested
      · exact ((List.pairwise_cons.1 hrest).1 k hk).trans hnested

/-! ### The names -/

/-- The names on the path are those of its definitions, outermost first. -/
theorem map_some_definitionPath (h : d.definitionAt? offset = some header) :
    (d.definitionPath offset).map some =
      (d.definitionsFrom header).reverse.map fun l => definedName? (d.buffer.lineText l) := by
  obtain ⟨-, -, ⟨hcode, hdef⟩, -⟩ := definitionAt?_spec h
  have hnames : ∀ l ∈ d.definitionsFrom header,
      (definedName? (d.buffer.lineText l)).isSome = true := fun l hl =>
    (Bool.and_eq_true_iff.1 (isDefinition_of_mem_definitionsFrom hcode hdef hl).2).1
  have hpath : d.definitionPath offset =
      ((d.definitionsFrom header).filterMap fun l => definedName? (d.buffer.lineText l)).reverse := by
    rw [definitionPath, h]
    rfl
  rw [hpath, List.map_reverse, map_some_filterMap hnames, List.map_reverse]

/-- The definitions from one on the path, outermost first, are the first ones of the path. -/
theorem reverse_definitionsFrom_of_getElem? {i : Nat} (hle : header ≤ d.lineCount)
    (h : (d.definitionsFrom header).reverse[i]? = some k) :
    (d.definitionsFrom k).reverse = (d.definitionsFrom header).reverse.take (i + 1) := by
  obtain ⟨hi, hk⟩ := List.getElem?_eq_some_iff.1 h
  have hsplit : (d.definitionsFrom header).reverse =
      (d.definitionsFrom header).reverse.take i ++
        k :: (d.definitionsFrom header).reverse.drop (i + 1) := by
    rw [← hk, ← List.drop_eq_getElem_cons hi, List.take_append_drop]
  have hlist := List.reverse_eq_append_iff.1 hsplit
  rw [List.reverse_cons, List.append_assoc, List.singleton_append] at hlist
  rw [definitionsFrom_of_append hle hlist, List.reverse_cons, List.reverse_reverse, ← hk,
    List.take_append_getElem hi]

/-- The path at the start of a definition on the path. -/
theorem definitionPath_indentationEnd {i : Nat} (h : d.definitionAt? offset = some header)
    (hk : (d.definitionsFrom header).reverse[i]? = some k) :
    d.definitionPath (d.buffer.indentationEnd k) = (d.definitionPath offset).take (i + 1) := by
  obtain ⟨-, -, ⟨hcode, hdef⟩, -⟩ := definitionAt?_spec h
  obtain ⟨hkcode, hkdef⟩ := isDefinition_of_mem_definitionsFrom hcode hdef
    (List.mem_reverse.1 (List.mem_of_getElem? hk))
  have hat := definitionAt?_indentationEnd hkcode hkdef
  apply List.map_injective_iff.2 (Option.some_injective Text)
  rw [map_some_definitionPath hat, List.map_take, map_some_definitionPath h, ← List.map_take,
    reverse_definitionsFrom_of_getElem? hcode.mem.2 hk]

end Document

/-- **The path of definitions is a chain of nested definitions.**  The path at an offset is empty
exactly if there are no bounds of a definition there.  Otherwise it names the headers of definitions
one below the other, each deeper than those before it and with its block inside theirs; the last one
is the header of the definition whose bounds these are, each other one is the innermost definition
around the next, and there is none around the first.  The path at the start of one of them consists
of the names down to it. -/
theorem definition_path_is_nested (d : Document) (offset : Nat) :
    (d.definitionPath offset = [] ↔ d.definitionBounds? offset = none) ∧
    ∀ span, d.definitionBounds? offset = some span →
      ∃ (headers : List Nat) (last : Nat), headers.getLast? = some last ∧
        span = d.blockSpan (d.firstDecorator last) last ∧
        (d.definitionPath offset).map some =
          headers.map (fun h => definedName? (d.buffer.lineText h)) ∧
        (∀ h ∈ headers, d.StartsCode h ∧ d.isDefinition h = true) ∧
        headers.Pairwise (fun h k => h < k ∧ d.buffer.indentation h < d.buffer.indentation k ∧
          d.blockEnd k ≤ d.blockEnd h) ∧
        (headers.IsChain (fun h k => (d.enclosingHeaders k).find? d.isDefinition = some h) ∧
          ∀ h, headers.head? = some h → (d.enclosingHeaders h).find? d.isDefinition = none) ∧
        ∀ i h, headers[i]? = some h →
          d.definitionPath (d.buffer.indentationEnd h) = (d.definitionPath offset).take (i + 1) := by
  constructor
  · cases hat : d.definitionAt? offset with
    | none => simp [Document.definitionPath, Document.definitionBounds?, hat]
    | some header =>
      have hpath := Document.map_some_definitionPath hat
      refine iff_of_false ?_ (by simp [Document.definitionBounds?_of_definitionAt? hat])
      intro hempty
      simp [hempty, Document.definitionsFrom] at hpath
  · intro span hspan
    obtain ⟨header, hat, hspan⟩ := Option.bind_eq_some_iff.1 hspan
    cases hspan
    obtain ⟨-, -, ⟨hcode, hdef⟩, -⟩ := Document.definitionAt?_spec hat
    refine ⟨(d.definitionsFrom header).reverse, header, ?_, rfl,
      Document.map_some_definitionPath hat, ?_, ?_, ⟨?_, ?_⟩, ?_⟩
    · rw [List.getLast?_reverse, Document.definitionsFrom, List.head?_cons]
    · exact fun h hh =>
        Document.isDefinition_of_mem_definitionsFrom hcode hdef (List.mem_reverse.1 hh)
    · refine List.pairwise_reverse.2 ((Document.pairwise_definitionsFrom hcode).imp ?_)
      exact fun hnested => ⟨hnested.lt, hnested.indentation_lt, hnested.blockEnd_le⟩
    · exact List.isChain_reverse.2 (Document.isChain_definitionsFrom hcode.mem.2)
    · intro h hfirst
      rw [List.head?_reverse] at hfirst
      exact Document.find?_of_getLast?_definitionsFrom hcode.mem.2 hfirst
    · exact fun i h hh => Document.definitionPath_indentationEnd hat hh

/-- A decorated method of a class in a conditional, where the path goes past the conditional. -/
theorem definition_path_is_nested_past_conditional :
    let d := Document.ofText "class A:\n  if b:\n    @c\n\n    def f():\n      g\n".toList
    let path := ["A".toList, "f".toList]
    (d.definitionBounds? 21 = some ⟨29, 45⟩ ∧ d.definitionPath 21 = path) ∧
      ∃ headers : List Nat,
        path.map some = headers.map (fun h => definedName? (d.buffer.lineText h)) ∧
        headers.Pairwise (fun h k => h < k ∧ d.buffer.indentation h < d.buffer.indentation k ∧
          d.blockEnd k ≤ d.blockEnd h) ∧
        ∀ i h, headers[i]? = some h →
          d.definitionPath (d.buffer.indentationEnd h) = path.take (i + 1) := by
  intro d path
  have hbounds : d.definitionBounds? 21 = some ⟨29, 45⟩ := by decide +kernel
  have hpath : d.definitionPath 21 = path := by decide +kernel
  obtain ⟨headers, last, -, -, hnames, -, hnested, -, hfirst⟩ :=
    (definition_path_is_nested d 21).2 ⟨29, 45⟩ hbounds
  rw [hpath] at hnames hfirst
  exact ⟨⟨hbounds, hpath⟩, headers, hnames, hnested, hfirst⟩

end Offside
