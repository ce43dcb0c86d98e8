import Offside.Edit
import Offside.Settings
import Offside.Lexical.Cache
import Offside.Lexical.Entry

/-!
# Documents

A document is a buffer under edit: its text, the settings that it goes by, a revision that grows
with every change, and the scanner's entry into each line.

* `Document.stateAt`, `lineStartState`, `codeCharsOfLines`: what the scanner says, read off the
  entries; all questions about the structure of the text are answered from these;
* `Document.lexicalContext`, `codeChars`: single look-ups, which go through a cache that outlives
  the edits;
* `Document.apply`: edits.
-/

namespace Offside

open Lexical

/-- A buffer under edit.  Its columns are counted in the tab width of the settings, where zero counts
as one. -/
structure Document where
  buffer : Buffer
  settings : Settings
  cache : Cache := {}
  revision : Nat := 0
  entries : Array Entry := (Lexical.entries buffer.text).toArray
  entries_eq : entries = (Lexical.entries buffer.text).toArray := by rfl
  tabWidth_eq : buffer.tabWidth = max settings.tabWidth 1 := by rfl

namespace Document

/-- The document of a text with given settings. -/
def withSettings (text : Text) (settings : Settings) : Document :=
  { buffer := Buffer.ofText text settings.tabWidth, settings }

/-- The document of a text with the settings that hold when none are given. -/
def ofText (text : Text) : Document := withSettings text {}

/-- The text of a document. -/
def text (d : Document) : Text := d.buffer.text

/-- The number of lines. -/
def lineCount (d : Document) : Nat := d.buffer.lineCount

/-- The number of columns of a level. -/
def indentUnit (d : Document) : Nat := d.settings.indentUnit

/-- The document with another number of columns per level, which has to be positive. -/
def setIndentUnit (d : Document) (unit : Nat) : Except ConfigError Document :=
  if unit = 0 then .error (.invalidIndentUnit 0)
  else .ok { d with settings := { d.settings with indentUnit := unit } }

/-- Refuses a line that does not exist. -/
def checkLine (d : Document) (line : Nat) : Except EditError Unit :=
  if d.buffer.hasLine line then .ok () else .error (.lineOutOfRange line d.lineCount)

/-! ### Structure -/

/-- The scanner's entry into a line, or into the nearest existing one. -/
def entry (d : Document) (line : Nat) : Entry :=
  d.entries.getD (d.buffer.clampLine line - 1) default

/-- The scanner at an offset. -/
def scannerAt (d : Document) (offset : Nat) : Scanner :=
  let line := d.buffer.lineOfOffset offset
  (d.entry line).scannerAt (d.buffer.lineStart line + ((d.buffer.line line).before offset).size)

/-- The lexical state before the character at an offset. -/
def stateAt (d : Document) (offset : Nat) : State := (d.scannerAt offset).state

/-- The lexical state at the start of a line. -/
def lineStartState (d : Document) (line : Nat) : State := (d.entry line).scanner.state

/-- The code characters from the start of a line up to an offset. -/
def codeCharsOfLines (d : Document) (line stop : Nat) : List CodeChar :=
  (d.entry line).codeChars stop

/-! ### Single look-ups -/

/-- The scanner at an offset, taken from the cache, and the document with the cache after it. -/
def cachedScannerAt (d : Document) (offset : Nat) : Scanner × Document :=
  let answer := d.cache.scannerAt d.buffer offset
  (answer.1, { d with cache := answer.2 })

/-- The lexical state at an offset, and the document with the cache after it. -/
def lexicalContext (d : Document) (offset : Nat) : State × Document :=
  let answer := d.cachedScannerAt offset
  (answer.1.state, answer.2)

/-- The code characters between two offsets, and the document with the cache after it. -/
def codeChars (d : Document) (start stop : Nat) : List CodeChar × Document :=
  let answer := d.cachedScannerAt start
  (answer.1.codeCharsOf d.text stop, answer.2)

/-! ### Edits -/

/-- The number of edits that change the text, and the document after all of them.  Edits that change
nothing are dropped first, and if no other is left the revision stays. -/
def apply (d : Document) (es : EditSet) : Except EditError (Nat × Document) := do
  let kept := es.withoutNoops d.buffer
  match kept.firstOffset? with
  | none => return (0, d)
  | some first =>
    match h : kept.apply d.buffer with
    | .error e => throw e
    | .ok buffer =>
      return (kept.length,
        { buffer, settings := d.settings, cache := d.cache.invalidateFrom first,
          revision := d.revision + 1
          tabWidth_eq := (EditSet.eq_of_apply h).2 ▸ d.tabWidth_eq })

end Document

end Offside
