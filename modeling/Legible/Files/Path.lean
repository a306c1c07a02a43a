import Legible.Text.Utf8
/-!
Paths of files: a root, if the path is absolute, and the names on the way; and the texts that name no file.
-/

namespace Legible

/-- Why a text can name no file. -/
inductive PathFault where
  /-- It holds the character that no name may have. -/
  | nul
  /-- It holds what has no bytes. -/
  | unencodable (error : Utf8.EncodeError)
deriving DecidableEq, Repr

namespace PathFault

/-- A surrogate that stands for no byte. -/
def isUnencodable (c : CodePoint) : Bool := c.isSurrogate && !Utf8.isByteMark c

/-- What is wrong with a text as the name of a file. -/
def find? (t : Text) : Option PathFault :=
  match Utf8.EncodeError.find? isUnencodable t with
  | some e => some (.unencodable e)
  | none => if t.any (·.val = 0) then some .nul else none

/-- The fault in words. -/
def message : PathFault → Text
  | nul => "embedded null byte"
  | unencodable e => e.message

end PathFault

/-- A path. The root is empty, one slash or exactly two; no part is empty or a single dot. -/
structure Path where
  root : Text
  parts : List Text
deriving DecidableEq, Repr

namespace Path

/-- The character between the names of a path. -/
def isSlash (c : CodePoint) : Bool := c = '/'

/-- The root of a text that starts with so many slashes: two of them stay two. -/
def rootOf : Nat → Text
  | 0 => []
  | 2 => "//"
  | _ => "/"

def ofText (t : Text) : Path where
  root := rootOf (t.takeWhile isSlash).length
  parts := (t.splitAtEach '/').filter fun p => !p.isEmpty && p ≠ "."

/-- The path in writing; a dot stands for the empty path. -/
def text (p : Path) : Text :=
  if p.root.isEmpty && p.parts.isEmpty then "." else p.root ++ Text.join "/" p.parts

/-- Starts at a root. -/
def isAbsolute (p : Path) : Bool := !p.root.isEmpty

/-- The last name of the path; a root alone has none. -/
def name (p : Path) : Text := p.parts.getLastD []

/-- The path without its last name. -/
def parent (p : Path) : Path := { p with parts := p.parts.dropLast }

/-- The second path as seen from the first; an absolute one is seen alike from everywhere. -/
def join (p q : Path) : Path := if q.isAbsolute then q else { p with parts := p.parts ++ q.parts }

/-- A name below a path. -/
def child (p : Path) (name : Text) : Path := { p with parts := p.parts ++ [name] }

/-- Goes on with the names that lie behind, held in reverse: two dots lead one level up. -/
def foldUp (behind : List Text) : List Text → List Text
  | [] => behind.reverse
  | n :: r => if n = ".." then foldUp (behind.drop 1) r else foldUp (n :: behind) r

/-- The absolute path without double dots, as seen from a directory that has none. -/
def resolve (directory p : Path) : Path :=
  let q := directory.join p
  { q with root := "/", parts := foldUp [] q.parts }

/-- What is wrong with the path as the name of a file. -/
def fault? (p : Path) : Option PathFault := PathFault.find? p.text

/-- The name that leads one level up. -/
def up : Text := ".."

/-- The names behind one that leads up: above a relative path they stay. -/
def stepUp (root : Text) (behind : List Text) : List Text :=
  if root.isEmpty && behind.all (· = up) then behind ++ [up] else behind.dropLast

/-- What is wrong with the first path that names no file, of those that are passed on the way. -/
def faultFrom? (root : Text) (behind : List Text) : List Text → Option PathFault
  | [] => none
  | n :: r =>
    if n = up then faultFrom? root (stepUp root behind) r
    else match fault? ⟨root, behind ++ [n]⟩ with
      | some f => some f
      | none => faultFrom? root (behind ++ [n]) r

/-- What is wrong with the way along a path. -/
def wayFault? (p : Path) : Option PathFault := faultFrom? (if p.isAbsolute then "/" else []) [] p.parts

/-- The number of bytes of a name, where a surrogate stands for one. -/
def byteCount (t : Text) : Nat :=
  t.foldl (fun n c => n + if c.isSurrogate then 1 else (Utf8.encodeOne c).length) 0

end Path

end Legible
