import Legible.Files.Path
import Legible.Text.Numeral
/-!
Settings: the draft in which layers are gathered, each field set or not, and the finished configuration.
-/

namespace Legible

/-- Where settings come from: a file, or something that a label tells. -/
inductive ConfigSource where
  | file (path : Path)
  | labelled (label : Text)
deriving DecidableEq, Repr

namespace ConfigSource

def commandLine : ConfigSource := labelled "<CLI overrides>"

/-- The source in writing. -/
def text : ConfigSource → Text
  | file p => p.text
  | labelled t => t

end ConfigSource

/-- Settings as far as they are set. -/
structure Draft where
  sources : List ConfigSource := []
  formatterCmd : Option Text := none
  formatterArgs : Option (List Text) := none
  printWidth : Option Int := none
  timeoutMs : Option Int := none
  syncFormat : Option Bool := none
  searchPaths : Option (List Path) := none
  cacheEnabled : Option Bool := none
  cacheMaxEntries : Option Int := none
  formatOnOpen : Option Bool := none
  title : Option Text := none
  issues : List Text := []
deriving DecidableEq, Repr

/-- The settings that a program runs on. -/
structure Config where
  sources : List ConfigSource
  formatterCmd : Option Text
  formatterArgs : List Text
  printWidth : Nat
  timeoutMs : Nat
  syncFormat : Bool
  searchPaths : List Path
  cacheEnabled : Bool
  cacheMaxEntries : Nat
  formatOnOpen : Bool
  title : Option Text
  issues : List Text
deriving DecidableEq, Repr

namespace Config

/-- The built-in settings. -/
def default : Config where
  sources := []
  formatterCmd := none
  formatterArgs := ["--parser", "typescript"]
  printWidth := 60
  timeoutMs := 3000
  syncFormat := true
  searchPaths := []
  cacheEnabled := true
  cacheMaxEntries := 100
  formatOnOpen := true
  title := none
  issues := []

/-- The settings as a draft, every field set that has a value. -/
def thaw (c : Config) : Draft where
  sources := c.sources
  formatterCmd := c.formatterCmd
  formatterArgs := some c.formatterArgs
  printWidth := some c.printWidth
  timeoutMs := some c.timeoutMs
  syncFormat := some c.syncFormat
  searchPaths := some c.searchPaths
  cacheEnabled := some c.cacheEnabled
  cacheMaxEntries := some c.cacheMaxEntries
  formatOnOpen := some c.formatOnOpen
  title := c.title
  issues := c.issues

end Config

namespace Draft

/-- The built-in settings as a draft. -/
def default : Draft := Config.default.thaw

/-- What is said of a value out of range, which is shown as a text. -/
def rangeText (name shown : Text) (fallback : Nat) : Text :=
  "Invalid " ++ name ++ "=" ++ shown ++ "; using default " ++ Text.ofNat fallback

/-- What is said of a number out of range, if it can be written. -/
def rangeIssue (name : Text) (value : Int) (fallback : Nat) : Except NumeralError Text :=
  (Numeral.shown value).map fun t => rangeText name t fallback

/-- A number of at least `least`, or the fallback and, where a number was set, an issue. -/
def inRange (name : Text) (least : Int) (fallback : Nat) (value : Option Int) :
    Except NumeralError (Nat × List Text) :=
  match value with
  | none => .ok (fallback, [])
  | some v =>
    if least ≤ v then .ok (v.toNat, []) else (rangeIssue name v fallback).map fun t => (fallback, [t])

/-- The finished settings: what is unset or out of range takes its built-in value. An empty command or
title counts as unset. There are none if a number out of range cannot be written. -/
def freeze (d : Draft) : Except NumeralError Config := do
  let b := Config.default
  let (printWidth, i) ← inRange "print_width" 1 b.printWidth d.printWidth
  let (timeoutMs, j) ← inRange "timeout_ms" 1 b.timeoutMs d.timeoutMs
  let (cacheMaxEntries, k) ← inRange "max_entries" 0 b.cacheMaxEntries d.cacheMaxEntries
  return {
    sources := d.sources
    formatterCmd := d.formatterCmd.filter fun t => !t.isEmpty
    formatterArgs := d.formatterArgs.getD b.formatterArgs
    printWidth, timeoutMs
    syncFormat := d.syncFormat.getD b.syncFormat
    searchPaths := d.searchPaths.getD b.searchPaths
    cacheEnabled := d.cacheEnabled.getD b.cacheEnabled
    cacheMaxEntries
    formatOnOpen := d.formatOnOpen.getD b.formatOnOpen
    title := d.title.filter fun t => !t.isEmpty
    issues := d.issues ++ i ++ j ++ k }

/-- The two drafts as layers: what the second one sets counts. -/
def mergeWith (d e : Draft) : Draft where
  sources := d.sources ++ e.sources
  formatterCmd := e.formatterCmd <|> d.formatterCmd
  formatterArgs := e.formatterArgs <|> d.formatterArgs
  printWidth := e.printWidth <|> d.printWidth
  timeoutMs := e.timeoutMs <|> d.timeoutMs
  syncFormat := e.syncFormat <|> d.syncFormat
  searchPaths := e.searchPaths <|> d.searchPaths
  cacheEnabled := e.cacheEnabled <|> d.cacheEnabled
  cacheMaxEntries := e.cacheMaxEntries <|> d.cacheMaxEntries
  formatOnOpen := e.formatOnOpen <|> d.formatOnOpen
  title := e.title <|> d.title
  issues := d.issues ++ e.issues

end Draft

/-- The settings that a command line may override. -/
structure Overrides where
  formatterCmd : Option Text := none
  printWidth : Option Int := none
  timeoutMs : Option Int := none
  syncFormat : Option Bool := none
  cacheEnabled : Option Bool := none
  cacheMaxEntries : Option Int := none
  formatOnOpen : Option Bool := none
  title : Option Text := none
deriving DecidableEq, Repr

/-- Sets what the command line sets, and lists it as a source if it sets anything. -/
def Draft.override (d : Draft) (o : Overrides) : Draft :=
  { d with
    sources := if o = {} then d.sources else d.sources ++ [.commandLine]
    formatterCmd := o.formatterCmd <|> d.formatterCmd
    printWidth := o.printWidth <|> d.printWidth
    timeoutMs := o.timeoutMs <|> d.timeoutMs
    syncFormat := o.syncFormat <|> d.syncFormat
    cacheEnabled := o.cacheEnabled <|> d.cacheEnabled
    cacheMaxEntries := o.cacheMaxEntries <|> d.cacheMaxEntries
    formatOnOpen := o.formatOnOpen <|> d.formatOnOpen
    title := o.title <|> d.title }

end Legible
