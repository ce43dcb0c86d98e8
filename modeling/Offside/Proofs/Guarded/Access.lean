import Offside.Edit
import Offside.Proofs.Edit
import Offside.Proofs.Text.Rows

/-!
# Guarded evaluations

A guarded evaluation looks into a text by slices, takes numbers from each other, divides and makes
spans out of bounds.  Each of these may be asked for where it cannot be had, and then the evaluation
stops with a fault.  An evaluation that equals `pure a` comes to its end, with the result `a`.

* `Fault`, `Guarded`: what can go wrong, and evaluations that it stops;
* `Guarded.slice`, `minus`, `quotient`, `item`, `items`, `byteIs`, `span`: the accesses that can fail;
* `Guarded.floor`: rounding an offset down, one byte at a time;
* `Guarded.onSome`, `mapSome`: going on with what has been found;
* `Guarded.takeWhile`, `dropWhile`, `filter`: lists that are tested with guards.
-/

namespace Offside

open Text (size IsBoundary)

/-- What stops an evaluation that asks for what cannot be had. -/
inductive Fault
  /-- A slice whose bounds are out of order, past the end of the text or inside a character. -/
  | slice (start stop : Nat)
  /-- A position past the end of a table. -/
  | index (position : Nat)
  /-- A number taken from a smaller one. -/
  | underflow (m n : Nat)
  /-- A division by zero. -/
  | division (m : Nat)
  /-- A span whose bounds are in the wrong order. -/
  | inverted (bounds : InvertedSpan)
  deriving DecidableEq, Repr

/-- An evaluation that a fault may stop. -/
abbrev Guarded (α : Type) := Except Fault α

namespace Guarded

variable {α β : Type}

/-! ### Accesses -/

/-- The text between two offsets, which have to be boundaries in order. -/
def slice (t : Text) (start stop : Nat) : Guarded Text :=
  match t.slice? start stop with
  | some s => pure s
  | none => throw (.slice start stop)

/-- The text from an offset on. -/
def sliceFrom (t : Text) (start : Nat) : Guarded Text := slice t start t.size

/-- The difference of two numbers, the first of which must not be the smaller one. -/
def minus (m n : Nat) : Guarded Nat := if n ≤ m then pure (m - n) else throw (.underflow m n)

/-- The quotient of two numbers, the second of which must not be zero. -/
def quotient (m n : Nat) : Guarded Nat := if n = 0 then throw (.division m) else pure (m / n)

/-- The item at a position of a table. -/
def item (table : Array α) (position : Nat) : Guarded α :=
  match table[position]? with
  | some a => pure a
  | none => throw (.index position)

/-- The items of a table from one position to another. -/
def items (table : Array α) (start stop : Nat) : Guarded (List α) :=
  if start ≤ stop ∧ stop ≤ table.size then pure ((table.toList.take stop).drop start)
  else throw (.slice start stop)

/-- Whether the byte at an offset is that of an ASCII character. -/
def byteIs (t : Text) (offset : Nat) (k : Char) : Guarded Bool :=
  if offset < t.size then pure (t.slice? offset (offset + 1) == some [k])
  else throw (.index offset)

/-- The span with these bounds, which have to be in order. -/
def span (start stop : Nat) : Guarded Span :=
  match Span.ofBounds start stop with
  | .ok s => pure s
  | .error e => throw (.inverted e)

/-- What cannot be had does stop an evaluation. -/
example : slice "aé".toList 1 2 = throw (.slice 1 2) ∧ slice "a".toList 1 2 = throw (.slice 1 2) ∧
    slice "ab".toList 2 1 = throw (.slice 2 1) ∧ minus 0 1 = throw (.underflow 0 1) ∧
    quotient 1 0 = throw (.division 1) ∧ item #['a'] 1 = throw (.index 1) ∧
    byteIs "a".toList 1 'a' = throw (.index 1) ∧ span 2 1 = throw (.inverted ⟨2, 1⟩) := by
  decide

theorem slice_append (p q x : Text) :
    slice (p ++ (q ++ x)) (size p) (size p + size q) = pure q := by
  rw [slice, Text.slice?_append]

@[simp] theorem slice_zero_size (q x : Text) : slice (q ++ x) 0 (size q) = pure q := by
  simpa using slice_append [] q x

@[simp] theorem sliceFrom_size (p q : Text) : sliceFrom (p ++ q) (size p) = pure q := by
  have h := slice_append p q []
  rwa [List.append_nil, ← Text.size_append] at h

/-- A text is sliced at the start of one of its ends. -/
theorem sliceFrom_of_isSuffix {t s : Text} (h : s <:+ t) :
    sliceFrom t (size t - size s) = pure s := by
  obtain ⟨p, rfl⟩ := h
  rw [Text.size_append, Nat.add_sub_cancel, sliceFrom_size]

theorem minus_of_le {m n : Nat} (h : n ≤ m) : minus m n = pure (m - n) := if_pos h

@[simp] theorem minus_succ_one (m : Nat) : minus (m + 1) 1 = pure m :=
  minus_of_le (Nat.le_add_left 1 m)

theorem quotient_of_pos {n : Nat} (h : 0 < n) (m : Nat) : quotient m n = pure (m / n) :=
  if_neg (Nat.ne_of_gt h)

theorem item_of_getElem? {table : Array α} {position : Nat} {a : α}
    (h : table[position]? = some a) : item table position = pure a := by
  rw [item, h]

theorem items_append (p q x : List α) :
    items (p ++ (q ++ x)).toArray p.length (p.length + q.length) = pure q := by
  rw [items, if_pos (by simp), List.take_length_add_append, List.take_left, List.drop_left]

/-- A byte of a character is that of an ASCII character if the two characters are the same. -/
theorem byteIs_append (p x : Text) {c k : Char} (hk : k.utf8Size = 1) {j : Nat}
    (hj : j < c.utf8Size) : byteIs (p ++ c :: x) (size p + j) k = pure (c == k) := by
  rw [byteIs, if_pos (by simp; omega)]
  congr 1
  by_cases hone : c.utf8Size = 1
  · obtain rfl : j = 0 := by omega
    have hslice := Text.slice?_append p [c] x
    rw [Text.size_cons, Text.size_nil, hone] at hslice
    rw [show p ++ c :: x = p ++ ([c] ++ x) from rfl, Nat.add_zero, hslice]
    simp
  · -- one of the two ends of the byte lies inside the character, which is no ASCII one
    have hne : c ≠ k := fun e => hone (e ▸ hk)
    have hinside : ∀ n, size p < n → n < size p + c.utf8Size → ¬ IsBoundary (p ++ c :: x) n :=
      fun n hlo hhi => Text.not_isBoundary_iff.2 (.inr ⟨p, c, x, rfl, hlo, hhi⟩)
    rw [Text.slice?, if_neg]
    · simp [hne]
    · rintro ⟨-, hstart, hstop⟩
      by_cases hzero : j = 0
      · exact hinside _ (by omega) (by omega) hstop
      · exact hinside _ (by omega) (by omega) hstart

theorem span_of_le {start stop : Nat} (h : start ≤ stop) :
    span start stop = pure ⟨start, stop⟩ := by
  rw [span, Span.ofBounds, if_pos h]

/-! ### Rounding down -/

/-- The largest boundary at or before an offset, looked for one byte at a time. -/
def floorFrom (t : Text) : Nat → Guarded Nat
  | 0 => if IsBoundary t 0 then pure 0 else throw (.underflow 0 1)
  | n + 1 => if IsBoundary t (n + 1) then pure (n + 1) else floorFrom t n

/-- The largest boundary of a text at or before an offset. -/
def floor (t : Text) (offset : Nat) : Guarded Nat := floorFrom t (min offset t.size)

theorem floorFrom_eq (t : Text) (n : Nat) : floorFrom t n = pure (t.floorBoundary n) := by
  induction n with
  | zero =>
    have hzero : IsBoundary t 0 := Text.isBoundary_zero t
    rw [floorFrom, if_pos hzero, show t.floorBoundary 0 = 0 from hzero]
  | succ n ih =>
    rw [floorFrom]
    split
    · next h => rw [show t.floorBoundary (n + 1) = n + 1 from h]
    · next h => rw [ih, Text.floorBoundary_succ h]

@[simp] theorem floor_eq (t : Text) (offset : Nat) :
    floor t offset = pure (t.floorBoundary offset) := by
  rw [floor, floorFrom_eq, Text.floorBoundary_min]

/-! ### Going on -/

/-- Goes on with what has been found, if anything has. -/
def onSome (found : Option α) (f : α → Guarded (Option β)) : Guarded (Option β) :=
  match found with
  | none => pure none
  | some a => f a

/-- What has been found, put into another form. -/
def mapSome (found : Option α) (f : α → Guarded β) : Guarded (Option β) :=
  onSome found fun a => return some (← f a)

/-- The items of a list up to the first that fails a test. -/
def takeWhile (p : α → Guarded Bool) : List α → Guarded (List α)
  | [] => pure []
  | a :: as => do if ← p a then return a :: (← takeWhile p as) else return []

/-- The items of a list from the first that fails a test. -/
def dropWhile (p : α → Guarded Bool) : List α → Guarded (List α)
  | [] => pure []
  | a :: as => do if ← p a then dropWhile p as else return a :: as

/-- The items of a list that pass a test. -/
def filter (p : α → Guarded Bool) : List α → Guarded (List α)
  | [] => pure []
  | a :: as => do if ← p a then return a :: (← filter p as) else filter p as

@[simp] theorem ite_pure (c : Prop) [Decidable c] (a b : α) :
    (if c then pure a else pure b : Guarded α) = pure (if c then a else b) := by
  split <;> rfl

theorem onSome_eq {found : Option α} {f : α → Guarded (Option β)} {g : α → Option β}
    (h : ∀ a, found = some a → f a = pure (g a)) : onSome found f = pure (found.bind g) := by
  cases found with
  | none => rfl
  | some a => rw [onSome, h a rfl, Option.bind_some]

@[simp] theorem onSome_pure (found : Option α) (f : α → Option β) :
    onSome found (fun a => pure (f a)) = pure (found.bind f) :=
  onSome_eq fun _ _ => rfl

theorem mapSome_eq {found : Option α} {f : α → Guarded β} {g : α → β}
    (h : ∀ a, found = some a → f a = pure (g a)) : mapSome found f = pure (found.map g) := by
  cases found with
  | none => rfl
  | some a => rw [mapSome, onSome, h a rfl, pure_bind, Option.map_some]

@[simp] theorem mapSome_pure (found : Option α) (f : α → β) :
    mapSome found (fun a => pure (f a)) = pure (found.map f) :=
  mapSome_eq fun _ _ => rfl

@[simp] theorem takeWhile_pure (p : α → Bool) (as : List α) :
    takeWhile (fun a => pure (p a)) as = pure (as.takeWhile p) := by
  induction as with
  | nil => rfl
  | cons a as ih => cases h : p a <;> simp [takeWhile, ih, h]

@[simp] theorem dropWhile_pure (p : α → Bool) (as : List α) :
    dropWhile (fun a => pure (p a)) as = pure (as.dropWhile p) := by
  induction as with
  | nil => rfl
  | cons a as ih => cases h : p a <;> simp [dropWhile, ih, h]

@[simp] theorem filter_pure (p : α → Bool) (as : List α) :
    filter (fun a => pure (p a)) as = pure (as.filter p) := by
  induction as with
  | nil => rfl
  | cons a as ih => cases h : p a <;> simp [filter, ih, h]

theorem findSomeM?_eq {as : List α} {f : α → Guarded (Option β)} {g : α → Option β}
    (h : ∀ a ∈ as, f a = pure (g a)) : as.findSomeM? f = pure (as.findSome? g) := by
  induction as with
  | nil => rfl
  | cons a as ih =>
    rw [List.findSomeM?, h a List.mem_cons_self, pure_bind, List.findSome?_cons]
    cases g a with
    | some b => rfl
    | none => exact ih fun b hb => h b (List.mem_cons_of_mem a hb)

end Guarded

end Offside
