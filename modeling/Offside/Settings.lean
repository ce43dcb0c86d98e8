import Offside.Buffer
import Offside.Keyword.Dedent

/-!
# Settings

A configuration is what a user writes: any integers and any words.  Settings are what a document
works with: the configuration after its numbers and keywords have been checked.

* `Config`, `ConfigError`, `Config.validate`;
* `Settings`, `Settings.ofConfig`.
-/

namespace Offside

/-- Why a configuration is refused. -/
inductive ConfigError
  | invalidIndentUnit (unit : Int)
  | invalidTabWidth (width : Int)
  | unknownDedentKeyword (word : String)
  | read (path reason : String)
  | parse (path reason : String)
  deriving DecidableEq, Repr

/-- What is reported for a refused configuration. -/
def ConfigError.message : ConfigError → String
  | .invalidIndentUnit unit => s!"invalid indent unit {unit}: must be greater than zero"
  | .invalidTabWidth width => s!"invalid tab width {width}: must be greater than zero"
  | .unknownDedentKeyword word => s!"unknown dedent keyword '{word}'"
  | .read path reason => s!"failed to read config file {path}: {reason}"
  | .parse path reason => s!"failed to parse config file {path}: {reason}"

/-- How indentation is to be measured and written. -/
structure IndentConfig where
  unit : Int := 4
  tabWidth : Int := 8
  guessIndent : Bool := true
  useTabs : Bool := false
  deriving DecidableEq, Repr, Inhabited

/-- Which keywords stand level with the block that they continue. -/
structure DedentConfig where
  keywords : List String := DedentKeyword.all.map DedentKeyword.name
  chainedHandlers : Bool := false
  deriving DecidableEq, Repr, Inhabited

/-- A configuration as it is written. -/
structure Config where
  indent : IndentConfig := {}
  dedent : DedentConfig := {}
  deriving DecidableEq, Repr, Inhabited

/-- The number of columns of a level, which has to be positive. -/
def IndentConfig.checkedUnit (c : IndentConfig) : Except ConfigError Nat :=
  if 0 < c.unit then .ok c.unit.toNat else .error (.invalidIndentUnit c.unit)

/-- The width of a tab, which has to be positive. -/
def IndentConfig.checkedTabWidth (c : IndentConfig) : Except ConfigError Nat :=
  if 0 < c.tabWidth then .ok c.tabWidth.toNat else .error (.invalidTabWidth c.tabWidth)

/-- The keyword with this spelling, or the refusal of an unknown one. -/
def DedentKeyword.ofName (name : String) : Except ConfigError DedentKeyword :=
  match DedentKeyword.ofName? name with
  | some k => .ok k
  | none => .error (.unknownDedentKeyword name)

/-- The keywords of a configuration. -/
def DedentConfig.checkedKeywords (c : DedentConfig) : Except ConfigError (List DedentKeyword) :=
  c.keywords.mapM DedentKeyword.ofName

/-- The configuration if nothing is wrong with it; of several faults that of the unit is reported
first, then that of the tab width, then the first unknown keyword. -/
def Config.validate (c : Config) : Except ConfigError Config := do
  let _ ← c.indent.checkedUnit
  let _ ← c.indent.checkedTabWidth
  let _ ← c.dedent.checkedKeywords
  return c

/-- What a document goes by. -/
structure Settings where
  indentUnit : Nat := 4
  tabWidth : Nat := defaultTabWidth
  useTabs : Bool := false
  dedentKeywords : List DedentKeyword := DedentKeyword.all
  chainedHandlers : Bool := false
  deriving DecidableEq, Repr, Inhabited

/-- The settings of a configuration; of several faults the first unknown keyword is reported first,
then that of the unit, then that of the tab width. -/
def Settings.ofConfig (c : Config) : Except ConfigError Settings := do
  let dedentKeywords ← c.dedent.checkedKeywords
  let indentUnit ← c.indent.checkedUnit
  let tabWidth ← c.indent.checkedTabWidth
  return { indentUnit, tabWidth, useTabs := c.indent.useTabs, dedentKeywords,
           chainedHandlers := c.dedent.chainedHandlers }

end Offside
