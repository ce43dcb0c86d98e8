import Offside.Buffer

/-!
# Edits

An edit replaces what stands in a span of a buffer by another text.  A list of edits is applied as
one transaction: all of its spans are read in the buffer as it was, and if one of them does not fit
or two of them overlap nothing is changed.

* `Span`, `Span.overlaps`;
* `TextEdit`, `TextEdit.isNoop`;
* `EditError` and its wording;
* `EditSet.conflict?`, `EditSet.validate`, `EditSet.apply`.
-/

namespace Offside

/-- The bytes from `start` up to `stop`, the latter excluded. -/
structure Span where
  start : Nat
  stop : Nat
  deriving DecidableEq, Repr, Inhabited

namespace Span

/-- The number of bytes of a span. -/
def size (s : Span) : Nat := s.stop - s.start

/-- Whether a span holds no byte. -/
def isEmpty (s : Span) : Bool := s.start == s.stop

/-- Two spans overlap if they share a byte or start at the same offset; spans that only touch do
not. -/
def overlaps (s t : Span) : Bool :=
  s.start == t.start || (decide (s.start < t.stop) && decide (t.start < s.stop))

/-- Whether an offset lies in a span. -/
def contains (s : Span) (offset : Nat) : Bool := decide (s.start ≤ offset ∧ offset < s.stop)

/-- A span written as a half-open interval. -/
def text (s : Span) : String := "[" ++ toString s.start ++ ", " ++ toString s.stop ++ ")"

/-- Spans in the order of their starts, then of their ends. -/
def le (s t : Span) : Bool :=
  decide (s.start < t.start) || (s.start == t.start && decide (s.stop ≤ t.stop))

end Span

/-- The bounds of a span given in the wrong order. -/
structure InvertedSpan where
  start : Nat
  stop : Nat
  deriving DecidableEq, Repr

/-- What is reported for bounds in the wrong order. -/
def InvertedSpan.message (e : InvertedSpan) : String :=
  "Span start (" ++ toString e.start ++ ") must be <= end (" ++ toString e.stop ++ ")"

/-- The span with these bounds, which have to be in order. -/
def Span.ofBounds (start stop : Nat) : Except InvertedSpan Span :=
  if start ≤ stop then .ok ⟨start, stop⟩ else .error ⟨start, stop⟩

/-- Why an edit of a buffer is refused. -/
inductive EditError
  | lineOutOfRange (line lineCount : Nat)
  | invalidRegion (start stop : Nat)
  | shiftTooFar (line indentation requested : Nat)
  | spanOutOfBounds (span : Span) (size : Nat)
  | overlappingEdits (first second : Span)
  deriving DecidableEq, Repr

/-- What is reported for a refused edit. -/
def EditError.message : EditError → String
  | .lineOutOfRange line lineCount =>
    s!"line {line} is out of range (buffer has {lineCount} lines)"
  | .invalidRegion start stop =>
    s!"invalid region: start line {start} is after end line {stop}"
  | .shiftTooFar line indentation requested =>
    s!"can't shift line {line} left by {requested}: it is only indented by {indentation}"
  | .spanOutOfBounds span size =>
    s!"edit span {span.text} is out of bounds (buffer length {size})"
  | .overlappingEdits first second => s!"overlapping edits at {first.text} and {second.text}"

/-- The replacement of what stands in `span` by `text`. -/
structure TextEdit where
  span : Span
  text : Text
  deriving DecidableEq, Repr, Inhabited

/-- Whether an edit puts back what is there already. -/
def TextEdit.isNoop (b : Buffer) (e : TextEdit) : Bool :=
  b.slice? e.span.start e.span.stop == some e.text

/-- Edits that are applied together. -/
abbrev EditSet := List TextEdit

namespace EditSet

/-- The smallest offset at which an edit starts. -/
def firstOffset? (es : EditSet) : Option Nat := (es.map (·.span.start)).min?

/-- The edits that change the buffer. -/
def withoutNoops (b : Buffer) (es : EditSet) : EditSet := es.filter fun e => !e.isNoop b

/-- The first two neighbours of a list that overlap. -/
def neighbourConflict? : List Span → Option (Span × Span)
  | s :: t :: rest => if s.overlaps t then some (s, t) else neighbourConflict? (t :: rest)
  | _ => none

/-- The first two overlapping spans in the order of the buffer. -/
def conflict? (es : EditSet) : Option (Span × Span) :=
  neighbourConflict? ((es.map (·.span)).mergeSort Span.le)

/-- Whether the edits can be applied: every span lies in the buffer on character boundaries, and no
two of them overlap. -/
def validate (b : Buffer) (es : EditSet) : Except EditError Unit :=
  match es.find? fun e => (b.slice? e.span.start e.span.stop).isNone with
  | some e => .error (.spanOutOfBounds e.span b.size)
  | none =>
    match es.conflict? with
    | some (s, t) => .error (.overlappingEdits s t)
    | none => .ok ()

/-- The text after the edits, made from the last to the first so that the offsets stay valid. -/
def replaceAll (text : Text) (es : EditSet) : Text :=
  (es.mergeSort fun a b => decide (b.span.start ≤ a.span.start)).foldl
    (fun t e => t.splice e.span.start e.span.stop e.text) text

/-- The buffer after all edits, or the reason why none of them is made. -/
def apply (b : Buffer) (es : EditSet) : Except EditError Buffer := do
  es.validate b
  return b.withText (es.replaceAll b.text)

/-- Edits that are made leave the text with every span replaced. -/
theorem eq_of_apply {b b' : Buffer} {es : EditSet} (h : es.apply b = .ok b') :
    es.validate b = .ok () ∧ b' = b.withText (es.replaceAll b.text) := by
  unfold apply at h
  cases hv : es.validate b with
  | error e => rw [hv] at h; cases h
  | ok u => rw [hv] at h; cases h; exact ⟨rfl, rfl⟩

end EditSet

end Offside
