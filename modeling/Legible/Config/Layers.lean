import Legible.Config.Schema
import Legible.Files.Tree
import Legible.Text.Lines
import Legible.Toml.Reader
/-!
The layers of settings: built-in ones, the user's file, the files of the project from the outermost
directory inwards, and files that are named.
-/

namespace Legible

/-- Why settings cannot be had at all. -/
inductive ConfigError where
  /-- A file is no UTF-8. -/
  | notUtf8 (error : Utf8.DecodeError)
  /-- A table of a file has a key twice, or one made anew. -/
  | conflict (conflict : Toml.Conflict)
  /-- A directory cannot be had, or a path can name no file. -/
  | place (fault : PlaceFault)
  /-- A value has a number with too many digits. -/
  | numeral (error : NumeralError)
  /-- Whether there is a file at a path cannot be told. -/
  | file (fault : FileFault) (path : Path)
deriving DecidableEq, Repr

/-- The error in words. -/
def ConfigError.message : ConfigError → Text
  | notUtf8 e => e.message
  | conflict (.duplicate name) => "Key \"" ++ name ++ "\" already exists."
  | conflict .redefined => "Redefinition of an existing table"
  | place f => f.message
  | numeral e => e.message
  | file f p => f.message p.text

/-- The error of a table without settings, as one of the settings. -/
def ConfigError.ofDraft : DraftError → ConfigError
  | .place f => place f
  | .numeral e => numeral e

namespace Host

/-- A file stands at the path. -/
def isFile (h : Host) (p : Path) : Except ConfigError Bool :=
  (h.files.isFile h.environment.directory p).mapError fun f => .file f p

/-- The table of a TOML file. A file that cannot be read, or is ill-formed, counts as empty. -/
def readTable (h : Host) (p : Path) : Except ConfigError Toml.Table :=
  match p.fault? with
  | some f => .error (.place (.path f))
  | none => match h.files.read h.environment.directory p with
    | .error _ => .ok []
    | .ok bytes => match Utf8.decode bytes with
      | .error e => .error (.notUtf8 e)
      | .ok text => match Toml.parse text.unifyNewlines with
        | .ok t => .ok t
        | .error .malformed => .ok []
        | .error (.conflict c) => .error (.conflict c)

/-- The file of a project that has settings of several tools. -/
def sharedName : Text := "pyproject.toml"

/-- The file of a project that has these settings alone. -/
def ownName : Text := "tserrors.toml"

/-- The table of a file's settings; in a shared file a section, where it is not empty. -/
def settingsOf (p : Path) (t : Toml.Table) : Option Toml.Table :=
  if p.name = sharedName then
    let s := Toml.subtable (Toml.subtable t "tool") "tserrors"
    if s.isEmpty then none else some s
  else some t

/-- The settings of a file; a shared file may have none. -/
def draftOfFile (h : Host) (p : Path) : Except ConfigError (Option Draft) := do
  let t ← h.readTable p
  match settingsOf p t with
  | none => return none
  | some s => return some (← (Draft.ofTable h.environment s (some p)).mapError .ofDraft)

/-- The file of this name in a directory, if there is one with settings, and whether it ends the search. -/
def localFile (h : Host) (directory : Path) (name : Text) :
    Except ConfigError (Option (Path × Bool)) := do
  let p := directory.child name
  if ← h.isFile p then
    match settingsOf p (← h.readTable p) with
    | none => return none
    | some s =>
      let isRoot := match Association.lookup s Schema.rootKey with
        | some (.bool true) => true
        | _ => false
      return some (p, isRoot)
  else return none

/-- The files with settings in a directory, and whether one of them ends the search. -/
def localFiles (h : Host) (directory : Path) : Except ConfigError (List Path × Bool) := do
  let shared ← h.localFile directory sharedName
  let own ← h.localFile directory ownName
  let found := shared.toList ++ own.toList
  return (found.map (·.1), found.any (·.2))

/-- Walks up through so many directories; the files of the outermost one come first. -/
def walkUp (h : Host) (directory : Path) : Nat → Except ConfigError (List Path)
  | 0 => (h.localFiles directory).map (·.1)
  | n + 1 => do
    let (found, isRoot) ← h.localFiles directory
    if isRoot then return found
    else return (← walkUp h directory.parent n) ++ found

/-- The directory where a search from a path starts: the path itself, or that of a file. -/
def searchStart (h : Host) (start : Path) : Except ConfigError Path := do
  let p ← (h.environment.resolve start).mapError .place
  return if ← h.isFile p then p.parent else p

/-- The files of the project that a path is in, from the outermost directory inwards. -/
def discover (h : Host) (start : Path) : Except ConfigError (List Path) := do
  let p ← h.searchStart start
  h.walkUp p p.parts.length

/-- The places where the user's file may stand. -/
def userPlaces (e : Environment) : Except PlaceFault (List Path) := do
  let base ← e.baseDirectory "XDG_CONFIG_HOME" (.ofText ".config")
  let home ← e.home
  return [(base.child "tserrors").child ownName, home.child ".tserrors.toml"]

def userFile? (h : Host) : Except ConfigError (Option Path) := do
  ((← (userPlaces h.environment).mapError .place).findM? h.isFile)

/-- A draft with the settings of a file on top. -/
def addFile (h : Host) (d : Draft) (p : Path) : Except ConfigError Draft := do
  match ← h.draftOfFile p with
  | some e => return d.mergeWith e
  | none => return d

/-- Adds the settings of files one by one. What is gathered before a file that cannot be had is kept. -/
def gather (h : Host) (d : Draft) : List Path → Draft × Option ConfigError
  | [] => (d, none)
  | p :: r => match h.addFile d p with
    | .ok e => gather h e r
    | .error e => (d, some e)

/-- The built-in settings under those of the user's file and of the project that a path is in, as far as
they can be had. The user's file is read before the project's are looked for. -/
def gatherFound (h : Host) (anchor : Path) : Draft × Option ConfigError :=
  match h.userFile? with
  | .error e => (Draft.default, some e)
  | .ok file => match h.gather Draft.default file.toList with
    | (d, some e) => (d, some e)
    | (d, none) => match h.discover anchor with
      | .error e => (d, some e)
      | .ok files => h.gather d files

/-- The settings of all layers as far as they can be had; without files, those of the built-in layer and
of the named files. -/
def gatherLayers (h : Host) (anchor : Path) (named : List Path) (noFiles : Bool) :
    Draft × Option ConfigError :=
  match if noFiles then (Draft.default, none) else h.gatherFound anchor with
  | (d, some e) => (d, some e)
  | (d, none) => h.gather d named

/-- The settings of all layers. -/
def loadMerged (h : Host) (anchor : Path) (named : List Path) (noFiles : Bool) :
    Except ConfigError Draft :=
  match h.gatherLayers anchor named noFiles with
  | (d, none) => .ok d
  | (_, some e) => .error e

end Host

end Legible
