import Legible.Files.Tree
import Legible.Machine.Shell
/-!
Starting a program: what its name leads to, why nothing can be started there, and what the programs of the
machine do with their arguments.
-/

namespace Legible

namespace FileTree

/-- What a text leads to from a directory, as it is written: a slash at its end asks for a directory. -/
def findText (t : FileTree) (directory : Path) (text : Text) : Except FileFault FileNode :=
  if text.isEmpty then .error .missing
  else if maxPath < Path.byteCount text then .error .nameTooLong
  else t.follow (if text.startsWith "/" then [] else directory.parts) (text.splitAtEach '/')

end FileTree

namespace Machine

/-- Why no program starts. -/
inductive StartFault where
  /-- The command line is empty. -/
  | unnamed
  /-- A part of the command line cannot be handed over. -/
  | argument (fault : PathFault)
  /-- There is no way to a file. -/
  | file (fault : FileFault)
  /-- What stands there may not be executed. -/
  | forbidden
  /-- What stands there is no program. -/
  | unknownFormat
deriving DecidableEq, Repr

/-- The programs of the machine, by what their files hold. -/
def programs : List Text := ["cat", "sh", "sleep"]

/-- Directories that every machine has besides those of its programs. -/
def directories : List Text :=
  ["tmp", "root", "home", "proc", "sys", "run", "lib", "sbin", "opt", "mnt", "usr/lib", "usr/local/bin", "var/tmp"]

/-- What stands on every machine. -/
def system : List (List Text × FileNode) :=
  let placed (n : FileNode) (t : Text) : List Text × FileNode := (t.splitAtEach '/', n)
  (programs.flatMap fun p => (["bin/", "usr/bin/"] : List Text).map fun d =>
      placed (.file (Utf8.encode p) true) (d ++ p))
    ++ (["dev/null", "etc/passwd"] : List Text).map (placed (.file [] false))
    ++ directories.map (placed .directory)

/-- What stands at a text, if it may be executed. -/
def executable (h : Host) (t : Text) : Except StartFault Bytes :=
  let files : FileTree := { nodes := h.files.nodes ++ system }
  match files.findText h.environment.directory t with
  | .ok (.file content true) => .ok content
  | .ok _ => .error .forbidden
  | .error f => .error (.file f)

/-- Where a program of a name may stand: with a slash, at the name alone. -/
def candidates (h : Host) (name : Text) : List Text :=
  if name.any Path.isSlash then [name]
  else (((h.environment.get? "PATH").getD "/bin:/usr/bin").splitAtEach ':').map (Host.below · name)

/-- The first program among candidates. Of the faults on the way, the first one that tells of more than a
missing file counts, or else the last one. -/
def firstProgram (h : Host) (serious : Option StartFault) (last : StartFault) :
    List Text → Except StartFault Bytes
  | [] => .error (serious.getD last)
  | t :: r => match executable h t with
    | .ok content => .ok content
    | .error f =>
      let harmless := f = .file .missing || f = .file .notDirectory
      firstProgram h (serious <|> if harmless then none else some f) f r

/-- Says what is wrong with a call of a program. -/
def complain (name : Text) (status : Int) (what : Text) : Ended :=
  { exit := ⟨status, [], Utf8.encode (name ++ ": " ++ what ++ "\n")⟩ }

/-- The line that follows a complaint about an option or an argument. -/
def helpLine (name : Text) : Text := "\nTry '" ++ name ++ " --help' for more information."

/-- Copies files to the output; a dash stands for the input, which can be read once. -/
def copyFiles (h : Host) (name : Text) (input : Bytes) : List Text → Exit
  | [] => ⟨0, [], []⟩
  | file :: r =>
    if file = "-" then
      let rest := copyFiles h name [] r
      { rest with stdout := input ++ rest.stdout }
    else
      let files : FileTree := { nodes := h.files.nodes ++ system }
      let rest := copyFiles h name input r
      let complaint (f : FileFault) : Exit :=
        { rest with status := 1, stderr := Utf8.encode (name ++ ": " ++ file ++ ": " ++ f.words ++ "\n") ++ rest.stderr }
      match files.findText h.environment.directory file with
      | .ok (.file content _) => { rest with stdout := content ++ rest.stdout }
      | .ok .directory => complaint .isDirectory
      | .error f => complaint f

/-- The milliseconds of an interval: a decimal number of seconds, or of what a letter at the end names. -/
def interval? (t : Text) : Option Nat :=
  let units : List (Text × Nat) := [("s", 1), ("m", 60), ("h", 3600), ("d", 86400)]
  let (digits, factor) := match units.find? fun (u, _) => t.endsWith u with
    | some (_, n) => (t.dropLast, n)
    | none => (t, 1)
  let parts := Text.splitAtEach '.' digits
  let wellFormed := parts.length ≤ 2 && parts.any (fun p => !p.isEmpty) && parts.all (·.all CodePoint.isAsciiDigit)
  if wellFormed then some (Shell.milliseconds digits * factor) else none

/-- Sleeps for the sum of some intervals. -/
def sleep (name : Text) (args : List Text) : Ended :=
  if args.isEmpty then complain name 1 ("missing operand" ++ helpLine name)
  else match args.find? fun t => (interval? t).isNone with
    | some t => complain name 1 ("invalid time interval " ++ Quoted.encode t ++ helpLine name)
    | none => { exit := ⟨0, [], []⟩, duration := (args.filterMap interval?).foldl (· + ·) 0 }

/-- Runs a script that is given after an option, that stands in a file, or that the input holds. -/
def shell (h : Host) (name : Text) (input : Bytes) : List Text → Ended
  | [] => Shell.run { parameters := [name], input := [] } (Utf8.decodeReplacing input)
  | option :: r =>
    if option = "-c" then match r with
      | [] => complain name 2 "0: -c requires an argument"
      | script :: r => Shell.run { parameters := if r.isEmpty then [name] else r, input } script
    else if option = "-s" then
      Shell.run { parameters := name :: r, input := [] } (Utf8.decodeReplacing input)
    else if option.startsWith "-" then complain name 2 ("0: Illegal option " ++ option)
    else match h.files.findText h.environment.directory option with
      | .ok (.file content _) => Shell.run { parameters := option :: r, input } (Utf8.decodeReplacing content)
      | _ => complain name 2 ("0: cannot open " ++ option ++ ": No such file")

/-- Starts a program and lets it end. -/
def start (h : Host) (argv : List Text) (input : Bytes) : Except StartFault Ended :=
  match argv, argv.findSome? PathFault.find? with
  | [], _ => .error .unnamed
  | _, some f => .error (.argument f)
  | name :: args, none =>
    match firstProgram h none (.file .missing) (candidates h name) with
    | .error f => .error f
    | .ok program =>
      if program = Utf8.encode "cat" then
        .ok { exit := copyFiles h name input (if args.isEmpty then ["-"] else args) }
      else if program = Utf8.encode "sh" then .ok (shell h name input args)
      else if program = Utf8.encode "sleep" then .ok (sleep name args)
      else .error .unknownFormat

end Machine

end Legible
