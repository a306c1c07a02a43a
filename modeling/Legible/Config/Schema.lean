import Legible.Config.Basic
import Legible.Files.Environment
import Legible.Toml.Shown
/-!
Settings in a TOML table. A key that is not known and a value of another type are issues, and leave all
other fields as they are.
-/

namespace Legible

namespace Schema

/-- A value as it is shown, unless it holds a number with too many digits. -/
def showValue (v : Toml) : Except NumeralError Text :=
  if v.hasTooWide then .error .tooWide else .ok v.shown

/-- What is said of a value of another type. -/
def typeIssue (expected place : Text) (v : Toml) : Except NumeralError Text :=
  (showValue v).map fun t => "Expected " ++ expected ++ " in " ++ place ++ ", got " ++ v.typeName ++ ": " ++ t

/-- The value of a key if it is of a type; another value is an issue. -/
def field (expected : Text) (read : Toml → Option α) (t : Toml.Table) (place key : Text) :
    Except NumeralError (Option α × List Text) :=
  match Toml.get? t key with
  | none => .ok (none, [])
  | some v => match read v with
    | some a => .ok (some a, [])
    | none => (typeIssue expected (place ++ "." ++ key) v).map fun issue => (none, [issue])

def asText : Toml → Option Text
  | .str t => some t
  | _ => none

/-- A truth value. -/
def asBool : Toml → Option Bool
  | .bool b => some b
  | _ => none

/-- A whole number. -/
def asInt : Toml → Option Int
  | .int i => some i
  | _ => none

def asItems : Toml → Option (List Toml)
  | .arr items => some items
  | _ => none

/-- The text of a key. -/
def textField : Toml.Table → Text → Text → Except NumeralError (Option Text × List Text) :=
  field "string" asText

/-- The truth value of a key. -/
def boolField : Toml.Table → Text → Text → Except NumeralError (Option Bool × List Text) :=
  field "bool" asBool

/-- The whole number of a key. -/
def intField : Toml.Table → Text → Text → Except NumeralError (Option Int × List Text) :=
  field "int" asInt

/-- What is said of an item that is no text. -/
def itemIssue (place : Text) (v : Toml) : Except NumeralError Text :=
  (showValue v).map fun t => "Ignoring non-string entry in " ++ place ++ ": " ++ t

/-- The texts of a key; other items are issues and left out. -/
def textsField (t : Toml.Table) (place key : Text) :
    Except NumeralError (Option (List Text) × List Text) := do
  match ← field "list" asItems t place key with
  | (none, issues) => return (none, issues)
  | (some items, issues) =>
    let others ← (items.filter fun v => (asText v).isNone).mapM (itemIssue (place ++ "." ++ key))
    return (some (items.filterMap asText), issues ++ others)

structure SectionKeys where
  name : Text
  keys : List Text

def formatter : SectionKeys :=
  ⟨"formatter", ["cmd", "args", "print_width", "timeout_ms", "sync_format", "search_paths"]⟩

def cache : SectionKeys := ⟨"cache", ["enabled", "max_entries"]⟩

def display : SectionKeys := ⟨"display", ["format_on_open", "title"]⟩

/-- The key that ends the search for settings. -/
def rootKey : Text := "root"

/-- The keys of the table itself. -/
def topKeys : List Text := [rootKey, formatter.name, cache.name, display.name]

def SectionKeys.place (s : SectionKeys) : Text := "[" ++ s.name ++ "]"

/-- The issues of the keys that a section does not have. -/
def unknownIn (t : Toml.Table) (s : SectionKeys) : List Text :=
  ((Toml.subtable t s.name).filter fun (k, _) => !s.keys.contains k).map fun (k, _) =>
    "Unknown key '" ++ k ++ "' in " ++ s.place

/-- The issues of the keys that are not known. -/
def unknownKeys (t : Toml.Table) (source : Option Path) : List Text :=
  let origin := (source.map Path.text).getD "<defaults>"
  ((t.filter fun (k, _) => !topKeys.contains k).map fun (k, _) =>
    "Unknown top-level key '" ++ k ++ "' in " ++ origin)
  ++ [formatter, cache, display].flatMap (unknownIn t)

end Schema

/-- Why a table has no settings at all. -/
inductive DraftError where
  /-- A directory that it names cannot be had. -/
  | place (fault : PlaceFault)
  /-- A value cannot be shown. -/
  | numeral (error : NumeralError)
deriving DecidableEq, Repr

/-- The directories of a table's texts, as seen from that of the file that the table is from, or from the
working directory. -/
def Environment.directories (e : Environment) (source : Option Path) (raw : List Text) :
    Except PlaceFault (List Path) := do
  let base ← match source with
    | some p => e.resolve p.parent
    | none => .ok e.directory
  raw.mapM (e.resolveFrom base)

/-- The settings of a table. -/
def Draft.ofTable (e : Environment) (t : Toml.Table) (source : Option Path) : Except DraftError Draft := do
  let f := Toml.subtable t Schema.formatter.name
  let c := Toml.subtable t Schema.cache.name
  let d := Toml.subtable t Schema.display.name
  let get {α : Type} (x : Except NumeralError α) : Except DraftError α := x.mapError .numeral
  let (formatterCmd, i₁) ← get (Schema.textField f Schema.formatter.place "cmd")
  let (formatterArgs, i₂) ← get (Schema.textsField f Schema.formatter.place "args")
  let (printWidth, i₃) ← get (Schema.intField f Schema.formatter.place "print_width")
  let (timeoutMs, i₄) ← get (Schema.intField f Schema.formatter.place "timeout_ms")
  let (syncFormat, i₅) ← get (Schema.boolField f Schema.formatter.place "sync_format")
  let (rawPaths, i₆) ← get (Schema.textsField f Schema.formatter.place "search_paths")
  let searchPaths ← (rawPaths.mapM (e.directories source)).mapError .place
  let (cacheEnabled, i₇) ← get (Schema.boolField c Schema.cache.place "enabled")
  let (cacheMaxEntries, i₈) ← get (Schema.intField c Schema.cache.place "max_entries")
  let (formatOnOpen, i₉) ← get (Schema.boolField d Schema.display.place "format_on_open")
  let (title, i₁₀) ← get (Schema.textField d Schema.display.place "title")
  return {
    sources := (source.map ConfigSource.file).toList
    formatterCmd, formatterArgs, printWidth, timeoutMs, syncFormat, searchPaths
    cacheEnabled, cacheMaxEntries, formatOnOpen, title
    issues := Schema.unknownKeys t source ++ i₁ ++ i₂ ++ i₃ ++ i₄ ++ i₅ ++ i₆ ++ i₇ ++ i₈ ++ i₉ ++ i₁₀ }

/-- A text, or no value. -/
def Toml.ofText? (t : Option Text) : Toml := (t.map Toml.str).getD .absent

/-- The settings as a table. -/
def Config.toTable (c : Config) : Toml.Table :=
  [("formatter", .table
      [("cmd", .ofText? c.formatterCmd), ("args", .arr (c.formatterArgs.map .str)),
       ("print_width", .int c.printWidth), ("timeout_ms", .int c.timeoutMs),
       ("sync_format", .bool c.syncFormat),
       ("search_paths", .arr (c.searchPaths.map fun p => .str p.text))]),
   ("cache", .table [("enabled", .bool c.cacheEnabled), ("max_entries", .int c.cacheMaxEntries)]),
   ("display", .table [("format_on_open", .bool c.formatOnOpen), ("title", .ofText? c.title)])]

end Legible
