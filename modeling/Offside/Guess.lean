import Offside.Document
import Offside.Status

/-!
# Guessing the indent unit

The indent unit of a text is read off its first block whose body is indented by a plausible amount.
-/

namespace Offside

namespace Document

/-- Whether an indent unit is plausible. -/
def isPlausibleUnit (unit : Nat) : Bool := decide (2 ≤ unit ∧ unit ≤ 8)

/-- How much deeper than the header at a line the first line of its body is, if this can be an
indent unit. -/
def bodyOffset? (d : Document) (header : Nat) : Option Nat := do
  let body ← d.nextCodeLine? (d.statementEnd header)
  let unit := d.buffer.indentation body - d.buffer.indentation header
  if isPlausibleUnit unit then return unit else none

/-- The indent unit of the first block from which one can be read off. -/
def guessIndentUnit? (d : Document) : Option Nat :=
  (d.statementsAfter 0).findSome? fun line =>
    if d.isBlockHeader line then d.bodyOffset? line else none

/-- The document of a text with a configuration, whose indent unit gives way to a guessed one if the
configuration says so. -/
def withConfig (text : Text) (config : Config) : Except ConfigError Document := do
  let settings ← Settings.ofConfig config
  let d := withSettings text settings
  if config.indent.guessIndent then
    let indentUnit := d.guessIndentUnit?.getD settings.indentUnit
    return { d with settings := { settings with indentUnit } }
  else return d

/-- The document of a text as it is opened: an indent unit that is given for it counts more than a
guessed one, and that more than the configured one. -/
def opened (text : Text) (config : Config) (unit? : Option Nat) : Except ConfigError Document := do
  let d ← withConfig text config
  match unit? with
  | some unit => d.setIndentUnit unit
  | none => return d

end Document

end Offside
