import Legible.Association
import Legible.Files.Path
/-!
The surroundings of a program: its variables, the accounts of the machine and the working directory.
-/

namespace Legible

/-- Variables, the home directories of accounts by name, that of the account in use, and the working
directory, which is absolute and has no double dots. -/
structure Environment where
  bindings : List (Text × Text) := []
  accounts : List (Text × Text) := []
  accountHome : Text := "/"
  directory : Path := ⟨"/", []⟩

/-- Why a directory that the surroundings name cannot be had. -/
inductive PlaceFault where
  /-- The home directory is not known. -/
  | noHome
  /-- A path can name no file. -/
  | path (fault : PathFault)
deriving DecidableEq, Repr

/-- The fault in words. -/
def PlaceFault.message : PlaceFault → Text
  | noHome => "Could not determine home directory."
  | path f => f.message

namespace Environment

/-- The value of a variable. -/
def get? (e : Environment) (name : Text) : Option Text := Association.lookup e.bindings name

/-- The value of a variable that is not empty. -/
def getNonempty? (e : Environment) (name : Text) : Option Text :=
  (e.get? name).filter fun t => !t.isEmpty

/-- The name of an account behind a tilde. -/
def accountOf (t : Text) : Text :=
  if t.startsWith "~" then (t.drop 1).takeWhile fun c => !Path.isSlash c else []

/-- A text that starts with a tilde, or a tilde and the name of an account, with the home directory for
it. -/
def expandHome (e : Environment) (t : Text) : Text :=
  if !t.startsWith "~" then t
  else
    let name := accountOf t
    let home :=
      if name.isEmpty then some ((e.get? "HOME").getD e.accountHome)
      else Association.lookup e.accounts name
    match home with
    | none => t
    | some h =>
      let full := Text.dropEndWhile Path.isSlash h ++ t.drop (name.length + 1)
      if full.isEmpty then "/" else full

/-- The home directory. What starts with a tilde itself is none. -/
def home (e : Environment) : Except PlaceFault Path :=
  let t := e.expandHome "~"
  if t.startsWith "~" then .error .noHome else .ok (.ofText t)

/-- The directory named by a variable, or one below the home directory. -/
def baseDirectory (e : Environment) (name : Text) (fallback : Path) : Except PlaceFault Path :=
  match e.getNonempty? name with
  | some t => .ok (.ofText t)
  | none => e.home.map (·.join fallback)

/-- The absolute path for a path. -/
def resolve (e : Environment) (p : Path) : Except PlaceFault Path :=
  match p.wayFault? with
  | some f => .error (.path f)
  | none => .ok (e.directory.resolve p)

/-- A path as written in a file: with the home directory for a tilde, and as seen from a directory. -/
def resolveFrom (e : Environment) (base : Path) (raw : Text) : Except PlaceFault Path :=
  match PathFault.find? (accountOf raw) with
  | some f => .error (.path f)
  | none => e.resolve (base.join (.ofText (e.expandHome raw)))

/-- The directory where an editor's package manager puts its executables. -/
def packageBin (e : Environment) : Except PlaceFault Path :=
  (e.baseDirectory "XDG_DATA_HOME" (.ofText ".local/share")).map (·.join (.ofText "nvim/mason/bin"))

end Environment

end Legible
