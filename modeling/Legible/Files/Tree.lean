import Legible.Association
import Legible.Files.Environment
import Legible.Text.Utf8
/-!
The files of a machine as a value: what stands at a path, and what reading it gives.
-/

namespace Legible

/-- What stands at a path. -/
inductive FileNode where
  | directory
  | file (content : Bytes) (executable : Bool)

/-- Files and directories by the names that lead to them from the root; whatever leads to one of them is
a directory too. -/
structure FileTree where
  nodes : List (List Text × FileNode) := []

/-- Why a file cannot be read. -/
inductive FileFault where
  | missing
  | notDirectory
  | isDirectory
  | nameTooLong
deriving DecidableEq, Repr

namespace FileFault

def number : FileFault → Nat
  | missing => 2
  | notDirectory => 20
  | isDirectory => 21
  | nameTooLong => 36

def words : FileFault → Text
  | missing => "No such file or directory"
  | notDirectory => "Not a directory"
  | isDirectory => "Is a directory"
  | nameTooLong => "File name too long"

/-- The fault with its number and the path. -/
def message (f : FileFault) (path : Text) : Text :=
  "[Errno " ++ Text.ofNat f.number ++ "] " ++ f.words ++ ": " ++ Quoted.encode path

end FileFault

namespace FileTree

/-- What stands behind these names. -/
def at? (t : FileTree) (names : List Text) : Option FileNode :=
  match Association.lookup t.nodes names with
  | some n => some n
  | none =>
    if names.isEmpty || t.nodes.any (fun (p, _) => names.isPrefixOf p) then some .directory else none

/-- The most bytes that a name may have. -/
def maxName : Nat := 255

/-- The most bytes that a path may have. -/
def maxPath : Nat := 4095

/-- Where a name leads from a place. -/
def goTo (here : List Text) (name : Text) : List Text :=
  if name = ".." then here.dropLast else if name.isEmpty || name = "." then here else here ++ [name]

/-- Follows names from a directory; every step but the last has to lead to a directory. -/
def follow (t : FileTree) (here : List Text) : List Text → Except FileFault FileNode
  | [] => match t.at? here with
    | some n => .ok n
    | none => .error .missing
  | name :: r =>
    match t.at? here with
    | none => .error .missing
    | some (.file ..) => .error .notDirectory
    | some .directory =>
      if maxName < Path.byteCount name then .error .nameTooLong else follow t (goTo here name) r

/-- What stands at a path, as seen from a directory. -/
def find (t : FileTree) (directory p : Path) : Except FileFault FileNode :=
  if maxPath < Path.byteCount p.text then .error .nameTooLong else t.follow [] (directory.join p).parts

/-- A file stands at the path. A name that is too long leaves the question open. -/
def isFile (t : FileTree) (directory p : Path) : Except FileFault Bool :=
  if p.fault?.isSome then .ok false
  else match t.find directory p with
    | .ok (.file ..) => .ok true
    | .error .nameTooLong => .error .nameTooLong
    | _ => .ok false

/-- The content of a file. -/
def read (t : FileTree) (directory p : Path) : Except FileFault Bytes :=
  match t.find directory p with
  | .ok (.file content _) => .ok content
  | .ok .directory => .error .isDirectory
  | .error f => .error f

end FileTree

/-- A machine: its surroundings and its files. -/
structure Host where
  environment : Environment
  files : FileTree

namespace Host

/-- A file that can be executed stands at the path. -/
def isExecutable (h : Host) (p : Path) : Bool :=
  match h.files.find h.environment.directory p with
  | .ok (.file _ x) => x
  | _ => false

/-- The directories of the search path, or those of one text; a colon separates them. -/
def searchPath (h : Host) (directory : Option Text) : List Text :=
  let path := match directory with
    | some d => d
    | none => (h.environment.get? "PATH").getD "/bin:/usr/bin"
  if path.isEmpty then [] else path.splitAtEach ':'

/-- A name below a directory, as written. -/
def below (directory name : Text) : Text :=
  if directory.isEmpty || directory.endsWith "/" then directory ++ name
  else directory ++ "/" ++ name

/-- The first executable of a name in the directories of the search path. -/
def which (h : Host) (name : Text) (directory : Option Text) : Option Text :=
  ((h.searchPath directory).map (below · name)).find? fun t => h.isExecutable (.ofText t)

end Host

end Legible
