import Delegation.Settings
import Delegation.Text.Blank
import Delegation.Toml.Document

/-!
# Configuration files

Settings are read from the entry `object` of a TOML document. What is missing
keeps its default, and entries without a meaning here are passed over. The
entry is a table, or an array that gives the settings by position.
-/

namespace Delegation

inductive ConfigError where
  | unreadable
  | malformed
  | emptyBuiltinName
  | zeroDepth
  deriving DecidableEq, Repr

namespace ConfigError

def message : ConfigError → String
  | unreadable => "failed to read"
  | malformed => "invalid config"
  | emptyBuiltinName => "object.builtin_name must not be empty"
  | zeroDepth => "object.max_delegate_depth must be at least 1"

def text (error : ConfigError) : String := s!"Plugin config error: {error.message}"

end ConfigError

namespace Settings

/-- The settings given by two optional entries, if they are of the right kinds. -/
def ofEntries? (builtinName maxDepth : Option Toml.Value) : Option Settings := do
  let name ← match builtinName with
    | none => some ({} : Settings).builtinName
    | some (.text name) => some name
    | some _ => none
  let depth ← match maxDepth with
    | none => some ({} : Settings).maxDelegateDepth
    | some (.integer (.ofNat depth)) => some depth
    | some _ => none
  return { builtinName := name, maxDelegateDepth := depth }

/-- The settings in a document. A date reads like a table without known entries. -/
def ofTable? (table : Toml.Table) : Option Settings :=
  match table.get? "object" with
  | none | some (.datetime _) => some {}
  | some (.table _ entries) =>
    ofEntries? (Toml.Table.get? entries "builtin_name") (Toml.Table.get? entries "max_delegate_depth")
  | some (.array items) => ofEntries? items[0]? items[1]?
  | some _ => none

def validate (settings : Settings) : Except ConfigError Settings :=
  if Text.isBlank settings.builtinName then .error .emptyBuiltinName
  else if settings.maxDelegateDepth = 0 then .error .zeroDepth
  else .ok settings

def parse (text : String) : Except ConfigError Settings :=
  match (Toml.parse? text).bind ofTable? with
  | some settings => settings.validate
  | none => .error .malformed

def ofFile (bytes : Option ByteArray) : Except ConfigError Settings :=
  match bytes.bind String.fromUTF8? with
  | some text => parse text
  | none => .error .unreadable

end Settings

end Delegation
