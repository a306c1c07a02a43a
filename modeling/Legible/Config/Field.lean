import Legible.Config.Schema
/-!
The fields of settings by their names, read and set as TOML values. A field that is not set has no value.
-/

namespace Legible

/-- The fields of settings. -/
inductive Field where
  | sources
  | formatterCmd
  | formatterArgs
  | printWidth
  | timeoutMs
  | syncFormat
  | searchPaths
  | cacheEnabled
  | cacheMaxEntries
  | formatOnOpen
  | title
  | issues
deriving DecidableEq, Repr

namespace Field

/-- The fields in their order. -/
def all : List Field :=
  [sources, formatterCmd, formatterArgs, printWidth, timeoutMs, syncFormat, searchPaths, cacheEnabled,
    cacheMaxEntries, formatOnOpen, title, issues]

/-- The fields that a command line may override. -/
def overridable : List Field :=
  [formatterCmd, printWidth, timeoutMs, syncFormat, cacheEnabled, cacheMaxEntries, formatOnOpen, title]

def name : Field → Text
  | sources => "config_files"
  | formatterCmd => "formatter_cmd"
  | formatterArgs => "formatter_args"
  | printWidth => "print_width"
  | timeoutMs => "timeout_ms"
  | syncFormat => "sync_format"
  | searchPaths => "search_paths"
  | cacheEnabled => "cache_enabled"
  | cacheMaxEntries => "cache_max_entries"
  | formatOnOpen => "format_on_open"
  | title => "title"
  | issues => "issues"

/-- The field of a name among some fields. -/
def ofName? (fields : List Field) (t : Text) : Option Field := fields.find? fun f => f.name = t

/-- The section and the key under which a table of settings has a field. -/
def key? : Field → Option (Text × Text)
  | formatterCmd => some (Schema.formatter.name, "cmd")
  | formatterArgs => some (Schema.formatter.name, "args")
  | printWidth => some (Schema.formatter.name, "print_width")
  | timeoutMs => some (Schema.formatter.name, "timeout_ms")
  | syncFormat => some (Schema.formatter.name, "sync_format")
  | searchPaths => some (Schema.formatter.name, "search_paths")
  | cacheEnabled => some (Schema.cache.name, "enabled")
  | cacheMaxEntries => some (Schema.cache.name, "max_entries")
  | formatOnOpen => some (Schema.display.name, "format_on_open")
  | title => some (Schema.display.name, "title")
  | sources => none
  | issues => none

/-- No value, or one of a type; all others are refused. -/
def orUnset (read : Toml → Option α) : Toml → Option (Option α)
  | .absent => some none
  | v => (read v).map some

/-- An array of texts. -/
def asTexts (v : Toml) : Option (List Text) := (Schema.asItems v).bind fun vs => vs.mapM Schema.asText

def ofTexts (ts : List Text) : Toml := .arr (ts.map .str)

end Field

namespace Draft

/-- The value of a field. -/
def get (d : Draft) : Field → Toml
  | .sources => Field.ofTexts (d.sources.map ConfigSource.text)
  | .formatterCmd => .ofText? d.formatterCmd
  | .formatterArgs => (d.formatterArgs.map Field.ofTexts).getD .absent
  | .printWidth => (d.printWidth.map Toml.int).getD .absent
  | .timeoutMs => (d.timeoutMs.map Toml.int).getD .absent
  | .syncFormat => (d.syncFormat.map Toml.bool).getD .absent
  | .searchPaths => (d.searchPaths.map fun ps => Field.ofTexts (ps.map Path.text)).getD .absent
  | .cacheEnabled => (d.cacheEnabled.map Toml.bool).getD .absent
  | .cacheMaxEntries => (d.cacheMaxEntries.map Toml.int).getD .absent
  | .formatOnOpen => (d.formatOnOpen.map Toml.bool).getD .absent
  | .title => .ofText? d.title
  | .issues => Field.ofTexts d.issues

/-- Sets a field, or unsets it where there is no value; a value of another type is refused. -/
def set? (d : Draft) (f : Field) (v : Toml) : Option Draft :=
  match f with
  | .sources => (Field.asTexts v).map fun ts => { d with sources := ts.map .labelled }
  | .formatterCmd => (Field.orUnset Schema.asText v).map fun a => { d with formatterCmd := a }
  | .formatterArgs => (Field.orUnset Field.asTexts v).map fun a => { d with formatterArgs := a }
  | .printWidth => (Field.orUnset Schema.asInt v).map fun a => { d with printWidth := a }
  | .timeoutMs => (Field.orUnset Schema.asInt v).map fun a => { d with timeoutMs := a }
  | .syncFormat => (Field.orUnset Schema.asBool v).map fun a => { d with syncFormat := a }
  | .searchPaths =>
    (Field.orUnset Field.asTexts v).map fun a => { d with searchPaths := a.map (·.map .ofText) }
  | .cacheEnabled => (Field.orUnset Schema.asBool v).map fun a => { d with cacheEnabled := a }
  | .cacheMaxEntries => (Field.orUnset Schema.asInt v).map fun a => { d with cacheMaxEntries := a }
  | .formatOnOpen => (Field.orUnset Schema.asBool v).map fun a => { d with formatOnOpen := a }
  | .title => (Field.orUnset Schema.asText v).map fun a => { d with title := a }
  | .issues => (Field.asTexts v).map fun ts => { d with issues := ts }

/-- Unsets a field that may be unset. -/
def unset (d : Draft) (f : Field) : Draft := (d.set? f .absent).getD d

end Draft

end Legible
