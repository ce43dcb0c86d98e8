import Offside.Proofs.Edit
import Offside.Proofs.Lexical.Cache
import Offside.Proofs.Lexical.Entries

/-!
# The cache never shows

Whatever has been looked up or edited before, a look-up through the cache answers as a scan of the
current text from its beginning.

* `Document.Action`, `Document.act`: look-ups and edits of a document;
* `Cache.Action`, `Cache.act`: look-ups, edits and invalidations of a cache beside a buffer;
* `Document.sound_run`, `Cache.sound_run`: what a step keeps, a run keeps;
* `cached_answers_eq_scan`: the answers after any run.
-/

namespace Offside

open Lexical

/-! ### Documents -/

/-- What can be done with a document as far as its cache is concerned.  A question about the
structure of the text amounts to look-ups at some offsets. -/
inductive Document.Action
  | lexicalContext (offset : Nat)
  | lineStartState (line : Nat)
  | codeChars (start stop : Nat)
  | ask (offsets : List Nat)
  | apply (edits : EditSet)

namespace Document

/-- The document after an action.  Edits that are refused leave it as it was. -/
def act (d : Document) : Action → Document
  | .lexicalContext offset => (d.lexicalContext offset).2
  | .lineStartState line => (d.lexicalContext (d.buffer.lineStart line)).2
  | .codeChars start stop => (d.codeChars start stop).2
  | .ask offsets => offsets.foldl (fun d offset => (d.cachedScannerAt offset).2) d
  | .apply edits =>
    match d.apply edits with
    | .ok (_, edited) => edited
    | .error _ => d

/-- The document after a list of actions. -/
def run (d : Document) (actions : List Action) : Document := actions.foldl act d

/-- Whether the cache of a document is sound for its text. -/
def CacheSound (d : Document) : Prop := d.cache.Sound d.text

theorem cacheSound_cachedScannerAt {d : Document} (h : d.CacheSound) (offset : Nat) :
    (d.cachedScannerAt offset).2.CacheSound :=
  (Cache.Sound.scannerAt h offset).2

theorem cacheSound_ask {d : Document} (h : d.CacheSound) (offsets : List Nat) :
    (d.act (.ask offsets)).CacheSound := by
  induction offsets generalizing d with
  | nil => exact h
  | cons o offsets ih => exact ih (cacheSound_cachedScannerAt h o)

/-- Edits that are made leave the cache sound for the new text. -/
theorem cacheSound_of_apply {d d' : Document} {es : EditSet} {n : Nat} (h : d.CacheSound)
    (he : d.apply es = .ok (n, d')) : d'.CacheSound := by
  rcases apply_cases he with ⟨-, -, rfl⟩ | ⟨first, hfirst, hbuffer, -, -, hcache, -⟩
  · exact h
  · obtain ⟨p, x, y, hx, hy, rfl⟩ := EditSet.exists_prefix_of_apply hbuffer hfirst
    have hs : d.cache.Sound (p ++ x) := hx ▸ h
    have hedited := hs.edited y
    rwa [← hy, ← hcache] at hedited

/-- An action keeps the cache sound. -/
theorem cacheSound_act {d : Document} (h : d.CacheSound) (a : Action) : (d.act a).CacheSound := by
  cases a with
  | lexicalContext offset => exact cacheSound_cachedScannerAt h offset
  | lineStartState line => exact cacheSound_cachedScannerAt h (d.buffer.lineStart line)
  | codeChars start stop => exact cacheSound_cachedScannerAt h start
  | ask offsets => exact cacheSound_ask h offsets
  | apply edits =>
    simp only [act]
    split
    · next n edited he => exact cacheSound_of_apply h he
    · exact h

/-- A run keeps the cache sound. -/
theorem cacheSound_run {d : Document} (h : d.CacheSound) (actions : List Action) :
    (d.run actions).CacheSound := by
  induction actions generalizing d with
  | nil => exact h
  | cons a actions ih => exact ih (cacheSound_act h a)

theorem cacheSound_withSettings (text : Text) (settings : Settings) :
    (withSettings text settings).CacheSound :=
  Cache.Sound.empty text

end Document

/-! ### A cache beside a buffer -/

namespace Lexical

/-- What can be done with a cache beside a buffer.  Edits of the buffer are followed by an
invalidation from the first of them. -/
inductive Cache.Action
  | lookUp (offset : Nat)
  | edit (edits : EditSet)
  | invalidateFrom (offset : Nat)
  | clear

namespace Cache

/-- The buffer and the cache after an action.  Edits that are refused change nothing. -/
def act : Buffer × Cache → Action → Buffer × Cache
  | (b, c), .lookUp offset => (b, (c.scannerAt b offset).2)
  | (b, c), .edit edits =>
    match edits.apply b, edits.firstOffset? with
    | .ok edited, some first => (edited, c.invalidateFrom first)
    | _, _ => (b, c)
  | (b, c), .invalidateFrom offset => (b, c.invalidateFrom offset)
  | (b, c), .clear => (b, c.clear)

/-- The buffer and the cache after a list of actions. -/
def run (bc : Buffer × Cache) (actions : List Action) : Buffer × Cache := actions.foldl act bc

/-- An action keeps a cache sound. -/
theorem sound_act {b : Buffer} {c : Cache} (h : c.Sound b.text) (a : Action) :
    (act (b, c) a).2.Sound (act (b, c) a).1.text := by
  cases a with
  | lookUp offset => exact (h.scannerAt offset).2
  | edit edits =>
    simp only [act]
    split
    · next edited first he hf =>
      obtain ⟨p, x, y, hx, hy, rfl⟩ := EditSet.exists_prefix_of_apply he hf
      have hs : c.Sound (p ++ x) := hx ▸ h
      exact hy.symm ▸ hs.edited y
    · exact h
  | invalidateFrom offset => exact h.invalidateFrom offset
  | clear => exact Sound.empty b.text

/-- A run keeps a cache sound. -/
theorem sound_run {b : Buffer} {c : Cache} (h : c.Sound b.text) (actions : List Action) :
    (run (b, c) actions).2.Sound (run (b, c) actions).1.text := by
  induction actions generalizing b c with
  | nil => exact h
  | cons a actions ih => exact ih (sound_act h a)

end Cache

end Lexical

/-- **The cache never shows.**  After any run of look-ups and edits of a document, a look-up through
the cache, the state that the entries give and the code characters are what a scan of the current
text from its beginning gives, and the checkpoints are strictly sorted.  The same holds of a cache
kept beside a buffer. -/
theorem cached_answers_eq_scan :
    (∀ (text : Text) (settings : Settings) (actions : List Document.Action),
      let d := (Document.withSettings text settings).run actions
      (∀ o, (d.cachedScannerAt o).1 = Scanner.ofOffset d.text o) ∧
      (∀ o, (d.lexicalContext o).1 = classify d.text o) ∧
      (∀ start stop, (d.codeChars start stop).1 = Lexical.codeChars d.text start stop) ∧
      (∀ o, d.stateAt o = classify d.text o) ∧
      (∀ line, d.lineStartState line = classify d.text (d.buffer.lineStart line)) ∧
      (∀ line stop, d.codeCharsOfLines line stop =
        Lexical.codeChars d.text (d.buffer.lineStart line) stop) ∧
      d.cache.checkpoints.Pairwise (·.offset < ·.offset)) ∧
    (∀ (b : Buffer) (actions : List Cache.Action),
      let bc := Cache.run (b, {}) actions
      (∀ o, (bc.2.scannerAt bc.1 o).1 = Scanner.ofOffset bc.1.text o) ∧
      (∀ o, (bc.2.classify bc.1 o).1 = classify bc.1.text o) ∧
      bc.2.checkpoints.Pairwise (·.offset < ·.offset)) := by
  constructor
  · intro text settings actions d
    have h : d.CacheSound :=
      Document.cacheSound_run (Document.cacheSound_withSettings text settings) actions
    have hscan : ∀ o, (d.cachedScannerAt o).1 = Scanner.ofOffset d.text o :=
      fun o => (Cache.Sound.scannerAt h o).1
    refine ⟨hscan, fun o => ?_, fun start stop => ?_, d.stateAt_eq, d.lineStartState_eq,
      d.codeCharsOfLines_eq, h.sorted⟩
    · exact congrArg Scanner.state (hscan o)
    · exact congrArg (Scanner.codeCharsOf d.text stop) (hscan start)
  · intro b actions bc
    have h := Cache.sound_run (Cache.Sound.empty b.text) actions
    have hscan : ∀ o, (bc.2.scannerAt bc.1 o).1 = Scanner.ofOffset bc.1.text o :=
      fun o => (h.scannerAt o).1
    exact ⟨hscan, fun o => congrArg Scanner.state (hscan o), h.sorted⟩

end Offside
