import Offside.Text.Basic
import Mathlib.Tactic.Common

/-!
# Character boundaries

A boundary of a text is the size of one of its prefixes.  Cutting a text at a boundary gives that
prefix and the rest, and rounding down gives the largest boundary at or before an offset.

* `takeBytes_size_add`, `dropBytes_size_add`: cutting past a known prefix;
* `isBoundary_iff`: boundaries as sizes of prefixes;
* `IsBoundary.le_floorBoundary`: rounding down gives the largest of them;
* `InsideChar`, `not_isBoundary_iff`: offsets that are no boundaries.
-/

namespace Offside.Text

theorem takeBytes_size_add (p x : Text) (n : Nat) :
    takeBytes (size p + n) (p ++ x) = p ++ takeBytes n x := by
  induction p with
  | nil => simp
  | cons c cs ih =>
    have h : c.utf8Size + size cs + n - c.utf8Size = size cs + n := by omega
    simp only [size_cons, List.cons_append, takeBytes, h, ih]
    rw [if_pos (by omega)]

theorem dropBytes_size_add (p x : Text) (n : Nat) :
    dropBytes (size p + n) (p ++ x) = dropBytes n x := by
  induction p with
  | nil => simp
  | cons c cs ih =>
    have h : c.utf8Size + size cs + n - c.utf8Size = size cs + n := by omega
    simp only [size_cons, List.cons_append, dropBytes, h, ih]
    rw [if_pos (by omega)]

@[simp] theorem size_eq_zero_iff {t : Text} : size t = 0 ↔ t = [] := by
  cases t with
  | nil => simp
  | cons c cs =>
    have := c.utf8Size_pos
    simp only [size_cons, List.cons_ne_nil, iff_false]
    omega

theorem size_pos_iff {t : Text} : 0 < size t ↔ t ≠ [] := by
  rw [Nat.pos_iff_ne_zero, ne_eq, size_eq_zero_iff]

/-- A text of characters of one byte each has as many bytes as characters. -/
theorem size_eq_length {t : Text} (h : ∀ c ∈ t, c.utf8Size = 1) : size t = t.length := by
  induction t with
  | nil => rfl
  | cons c cs ih =>
    obtain ⟨hc, hcs⟩ := List.forall_mem_cons.1 h
    rw [size_cons, hc, ih hcs, List.length_cons, Nat.add_comm]

/-- Fewer characters than a prefix has are fewer bytes. -/
theorem size_take_lt {p : Text} {n : Nat} (h : n < p.length) (x : Text) :
    size ((p ++ x).take n) < size p := by
  have hp := congrArg size (List.take_append_drop n p)
  have hd : 0 < size (p.drop n) := size_pos_iff.2 (by simpa using h)
  rw [size_append] at hp
  rw [List.take_append_of_le_length (by omega)]
  omega

theorem size_take_add (p x : Text) (m : Nat) :
    size ((p ++ x).take (p.length + m)) = size p + size (x.take m) := by
  rw [List.take_length_add_append, size_append]

@[simp] theorem takeBytes_zero (t : Text) : takeBytes 0 t = [] := by
  cases t with
  | nil => rfl
  | cons c cs =>
    have h : ¬ c.utf8Size ≤ 0 := by have := c.utf8Size_pos; omega
    simp [takeBytes, h]

@[simp] theorem dropBytes_zero (t : Text) : dropBytes 0 t = t := by
  have h := takeBytes_append_dropBytes 0 t
  rwa [takeBytes_zero, List.nil_append] at h

@[simp] theorem takeBytes_size (p x : Text) : takeBytes (size p) (p ++ x) = p := by
  simpa using takeBytes_size_add p x 0

@[simp] theorem dropBytes_size (p x : Text) : dropBytes (size p) (p ++ x) = x := by
  simpa using dropBytes_size_add p x 0

theorem takeBytes_append_of_le {p : Text} {n : Nat} (h : n ≤ size p) (x : Text) :
    takeBytes n (p ++ x) = takeBytes n p := by
  induction p generalizing n with
  | nil =>
    obtain rfl : n = 0 := Nat.le_zero.1 h
    simp
  | cons c cs ih =>
    rw [size_cons] at h
    by_cases hc : c.utf8Size ≤ n
    · simp only [List.cons_append, takeBytes, hc, if_true, ih (n := n - c.utf8Size) (by omega)]
    · simp only [List.cons_append, takeBytes, hc, if_false]

theorem dropBytes_append_of_le {p : Text} {n : Nat} (h : n ≤ size p) (x : Text) :
    dropBytes n (p ++ x) = dropBytes n p ++ x := by
  have hx := takeBytes_append_dropBytes n (p ++ x)
  rw [takeBytes_append_of_le h] at hx
  have hsame : takeBytes n p ++ dropBytes n (p ++ x) = takeBytes n p ++ (dropBytes n p ++ x) := by
    rw [hx, ← List.append_assoc, takeBytes_append_dropBytes]
  exact List.append_cancel_left hsame

/-- The size of a prefix is a boundary. -/
theorem isBoundary_size (p x : Text) : IsBoundary (p ++ x) (size p) := by
  simp [IsBoundary, floorBoundary]

/-- The boundaries of a text are the sizes of its prefixes. -/
theorem isBoundary_iff {t : Text} {n : Nat} :
    IsBoundary t n ↔ ∃ p x, t = p ++ x ∧ n = size p := by
  constructor
  · intro h
    exact ⟨takeBytes n t, dropBytes n t, (takeBytes_append_dropBytes n t).symm, h.symm⟩
  · rintro ⟨p, x, rfl, rfl⟩
    exact isBoundary_size p x

theorem isBoundary_zero (t : Text) : IsBoundary t 0 := isBoundary_size [] t

theorem isBoundary_floorBoundary (t : Text) (n : Nat) : IsBoundary t (floorBoundary t n) :=
  isBoundary_iff.2 ⟨takeBytes n t, dropBytes n t, (takeBytes_append_dropBytes n t).symm, rfl⟩

/-- A text cut at two of its boundaries. -/
theorem exists_append_of_isBoundary {t : Text} {m n : Nat} (hm : IsBoundary t m)
    (hn : IsBoundary t n) (h : m ≤ n) :
    ∃ p q x, t = p ++ (q ++ x) ∧ m = size p ∧ n = size p + size q := by
  obtain ⟨p, y, rfl, rfl⟩ := isBoundary_iff.1 hm
  obtain ⟨k, rfl⟩ := Nat.exists_eq_add_of_le h
  refine ⟨p, takeBytes k y, dropBytes k y, by simp, rfl, ?_⟩
  have := hn
  rw [IsBoundary, floorBoundary, takeBytes_size_add, size_append] at this
  omega

/-- A boundary of a text that lies within a prefix is one of the prefix. -/
theorem IsBoundary.of_append {p x : Text} {n : Nat} (h : IsBoundary (p ++ x) n)
    (hn : n ≤ size p) : IsBoundary p n := by
  obtain ⟨q, r, y, ht, rfl, hp⟩ := exists_append_of_isBoundary h (isBoundary_size p x) hn
  rw [← List.append_assoc] at ht
  have hq : p = q ++ r := by
    have h1 := takeBytes_size p x
    rw [ht, hp, ← size_append, takeBytes_size] at h1
    exact h1.symm
  exact hq ▸ isBoundary_size q r

theorem IsBoundary.append {p : Text} {n : Nat} (h : IsBoundary p n) (x : Text) :
    IsBoundary (p ++ x) n := by
  obtain ⟨q, r, rfl, rfl⟩ := isBoundary_iff.1 h
  rw [List.append_assoc]
  exact isBoundary_size q (r ++ x)

theorem IsBoundary.le_size {t : Text} {n : Nat} (h : IsBoundary t n) : n ≤ size t := by
  rw [← h]
  exact floorBoundary_le_size t n

/-- No boundary lies between an offset and what it is rounded down to. -/
theorem IsBoundary.le_floorBoundary {t : Text} {m n : Nat} (hm : IsBoundary t m) (h : m ≤ n) :
    m ≤ t.floorBoundary n := by
  obtain ⟨p, x, rfl, rfl⟩ := isBoundary_iff.1 hm
  obtain ⟨k, rfl⟩ := Nat.exists_eq_add_of_le h
  rw [floorBoundary, takeBytes_size_add, size_append]
  exact Nat.le_add_right _ _

/-- An offset that is no boundary is rounded down like the one before it. -/
theorem floorBoundary_succ {t : Text} {n : Nat} (h : ¬ IsBoundary t (n + 1)) :
    t.floorBoundary (n + 1) = t.floorBoundary n := by
  have hle := floorBoundary_le t (n + 1)
  have hne : t.floorBoundary (n + 1) ≠ n + 1 := h
  have hup := (isBoundary_floorBoundary t (n + 1)).le_floorBoundary (n := n) (by omega)
  have hdown := (isBoundary_floorBoundary t n).le_floorBoundary (n := n + 1)
    (Nat.le_succ_of_le (floorBoundary_le t n))
  omega

/-- Offsets past the end are rounded down like the end. -/
theorem floorBoundary_min (t : Text) (n : Nat) :
    t.floorBoundary (min n (size t)) = t.floorBoundary n := by
  have hle := floorBoundary_le_size t n
  have hle' := floorBoundary_le t n
  have hup := (isBoundary_floorBoundary t n).le_floorBoundary (n := min n (size t)) (by omega)
  have hmin := floorBoundary_le t (min n (size t))
  have hdown := (isBoundary_floorBoundary t (min n (size t))).le_floorBoundary (n := n) (by omega)
  omega

/-- Whether byte `n` lies strictly inside a character of the text. -/
def InsideChar (t : Text) (n : Nat) : Prop :=
  ∃ p c x, t = p ++ c :: x ∧ size p < n ∧ n < size p + c.utf8Size

/-- The first character that does not end at or before an offset ends after it. -/
theorem lt_of_dropBytes_eq_cons {t x : Text} {n : Nat} {c : Char} (h : dropBytes n t = c :: x) :
    n < size (takeBytes n t) + c.utf8Size := by
  induction t generalizing n with
  | nil => cases h
  | cons d ds ih =>
    by_cases hd : d.utf8Size ≤ n
    · have := ih (n := n - d.utf8Size) (by simpa [dropBytes, hd] using h)
      simp only [takeBytes, hd, if_true, size_cons]
      omega
    · obtain ⟨rfl, -⟩ : d = c ∧ ds = x := by simpa [dropBytes, hd] using h
      simp only [takeBytes, hd, if_false, size_nil]
      omega

/-- An offset that is no boundary lies past the end or inside a character. -/
theorem not_isBoundary_iff {t : Text} {n : Nat} :
    ¬ IsBoundary t n ↔ size t < n ∨ InsideChar t n := by
  constructor
  · intro h
    have hjoin := takeBytes_append_dropBytes n t
    have hle := floorBoundary_le t n
    have hne : size (takeBytes n t) ≠ n := h
    cases hx : dropBytes n t with
    | nil =>
      rw [hx, List.append_nil] at hjoin
      rw [hjoin] at hne
      rw [floorBoundary, hjoin] at hle
      exact .inl (by omega)
    | cons c x =>
      have hlt := lt_of_dropBytes_eq_cons hx
      rw [floorBoundary] at hle
      exact .inr ⟨takeBytes n t, c, x, by rw [← hx, hjoin], by omega, hlt⟩
  · rintro (hlt | ⟨p, c, x, rfl, hlo, hhi⟩) h
    · exact Nat.not_le.2 hlt h.le_size
    · obtain ⟨k, rfl⟩ := Nat.exists_eq_add_of_lt hlo
      have htake : takeBytes (k + 1) (c :: x) = [] := by
        rw [takeBytes, if_neg (by omega)]
      rw [IsBoundary, floorBoundary, Nat.add_assoc, takeBytes_size_add, htake,
        List.append_nil] at h
      omega

end Offside.Text
