import Legible.Association
import Legible.Format.Process
import Legible.Machine.Script
import Legible.Text.Numeral
/-!
A small shell. With two other programs it stands in for a formatter where the text on either side of a
process is at issue.
-/

namespace Legible.Machine

/-- A process that has ended, and how many milliseconds it took. -/
structure Ended where
  exit : Exit
  duration : Nat := 0
deriving DecidableEq, Repr

/-- Where the shell runs a command. -/
structure Shell where
  /-- The name of the script and its parameters. -/
  parameters : List Text
  input : Bytes
  stdout : Bytes := []
  stderr : Bytes := []
  status : Nat := 0
  duration : Nat := 0
  /-- The shell has ended, with this status. -/
  ended : Option Int := none
deriving DecidableEq, Repr

namespace Shell

def processNumber : Nat := 4096

/-- The value of a parameter. -/
def parameter (s : Shell) (name : Text) : Text :=
  if name = "$" then Text.ofNat processNumber
  else if name = "?" then Text.ofNat s.status
  else if name = "#" then Text.ofNat (s.parameters.length - 1)
  else if name = "@" || name = "*" then Text.join " " (s.parameters.drop 1)
  else match Numeral.digits? name with
    | some ds => (s.parameters[Numeral.value ds]?).getD []
    | none => []

/-- The fields that a word becomes, the last one held apart: an unquoted parameter may end fields. -/
def expandPieces (s : Shell) (begun : Option Text) : Script.Word → List Text
  | [] => begun.toList
  | .plain t :: r => expandPieces s (some (begun.getD [] ++ t)) r
  | .parameter n quoted :: r =>
    let v := s.parameter n
    if quoted then expandPieces s (some (begun.getD [] ++ v)) r
    else
      match (Text.splitAtEach ' ' v).filter fun f => !f.isEmpty with
      | [] => expandPieces s begun r
      | f :: fs =>
        let whole := (begun.getD [] ++ f) :: fs
        whole.dropLast ++ expandPieces s whole.getLast? r

/-- The fields that a word becomes; quotes alone make an empty one. -/
def expand (s : Shell) (w : Script.Word) : List Text :=
  if w.isEmpty then [[]] else s.expandPieces none w

/-- A place that output can go to. -/
inductive Sink where
  | stdout
  | stderr
  | nowhere
deriving DecidableEq, Repr

/-- The places of a command's output and errors. -/
structure Sinks where
  output : Sink := .stdout
  errors : Sink := .stderr
deriving DecidableEq, Repr

/-- Redirects outputs in order. -/
def redirect (k : Sinks) (r : Script.Redirection) : Sinks :=
  let sink := match r.target with
    | .file _ => Sink.nowhere
    | .number n => if n = 2 then k.errors else k.output
  if r.number = 2 then { k with errors := sink } else { k with output := sink }

/-- Writes bytes to a place. -/
def write (s : Shell) (k : Sink) (bs : Bytes) : Shell :=
  match k with
  | .stdout => { s with stdout := s.stdout ++ bs }
  | .stderr => { s with stderr := s.stderr ++ bs }
  | .nowhere => s

/-- Writes a text to a place. -/
def writeText (s : Shell) (k : Sink) (t : Text) : Shell := s.write k (Utf8.encode t)

/-- The byte of an octal number at the start of a text, of three digits at most. -/
def octal : Nat → Text → Nat × Text
  | 0, t => (0, t)
  | n + 1, t => match t with
    | c :: r =>
      if c.within '0' '7' then
        let (digits, rest) := octal n r
        ((c.val - 48) * Nat.pow 8 (r.length - rest.length) + digits, rest)
      else (0, t)
    | [] => (0, [])

/-- The byte of a letter behind a backslash. -/
def letterByte? (c : CodePoint) : Option UInt8 :=
  if c = 'n' then some 10 else if c = 't' then some 9 else if c = 'r' then some 13
  else if c = 'a' then some 7 else if c = 'b' then some 8 else if c = 'f' then some 12
  else if c = 'v' then some 11 else if c = '\\' then some 92 else none

/-- The bytes of a text with backslashes; `zero` is set where an octal number has to start with a zero.
The number of characters that are passed over because they were read already comes first. -/
def unescape (zero : Bool) : Nat → Text → Bytes
  | _, [] => []
  | skip + 1, _ :: r => unescape zero skip r
  | 0, [c] => Utf8.encode [c]
  | 0, c :: d :: r =>
    if c = '\\' then
      let digits := if zero then (if d = '0' then r else []) else d :: r
      let (value, rest) := octal 3 digits
      if rest.length < digits.length || (zero && d = '0') then
        value.toUInt8 :: unescape zero ((d :: r).length - rest.length) (d :: r)
      else match letterByte? d with
        | some b => b :: unescape zero 1 (d :: r)
        | none => Utf8.encode [c] ++ unescape zero 0 (d :: r)
    else Utf8.encode [c] ++ unescape zero 0 (d :: r)

/-- Puts arguments into the places of a format, and gives back those that are left; missing ones are empty,
or nought. -/
def fillOnce : Text → List Text → Text × List Text
  | [], args => ([], args)
  | [c], args => ([c], args)
  | c :: d :: r, args =>
    let place (fallback : Text) : Text × List Text :=
      let (t, rest) := fillOnce r (args.drop 1)
      (args.headD fallback ++ t, rest)
    if c = '%' && d = 's' then place []
    else if c = '%' && d = 'd' then place "0"
    else if c = '%' && d = '%' then let (t, rest) := fillOnce r args; (c :: t, rest)
    else let (t, rest) := fillOnce (d :: r) args; (c :: t, rest)

/-- Uses a format again and again, but at most so many times more, until no arguments are left. -/
def fillFormat (again : Nat) (format : Text) (args : List Text) : Text :=
  match again, fillOnce format args with
  | n + 1, (t, a :: r) => if (a :: r).length < args.length then t ++ fillFormat n format (a :: r) else t
  | _, (t, _) => t

/-- Sets the status that a command leaves. -/
def leave (s : Shell) (status : Nat) : Shell := { s with status }

/-- Reads a number of seconds as milliseconds. -/
def milliseconds (t : Text) : Nat :=
  let (whole, rest) := List.span CodePoint.isAsciiDigit t
  let thousandths := ((rest.drop 1).take 3).map fun c => c.val - 48
  Numeral.value (whole.map fun c => c.val - 48) * 1000
    + Numeral.value thousandths * Nat.pow 10 (3 - thousandths.length)

/-- Copies the shell's input, which is then used up. -/
def copy (s : Shell) (k : Sinks) (args : List Text) : Shell :=
  if args.isEmpty then leave { s.write k.output s.input with input := [] } 0 else s.leave 0

/-- What is said of a command that there is not. -/
def notFound (s : Shell) (k : Sinks) (line : Nat) (name : Text) : Shell :=
  leave (s.writeText k.errors
    (s.parameters.headD [] ++ ": " ++ Text.ofNat line ++ ": " ++ name ++ ": not found\n")) 127

/-- Some signals by name. -/
def signals : List (Text × Nat) := [("HUP", 1), ("INT", 2), ("QUIT", 3), ("KILL", 9), ("TERM", 15)]

/-- The number of a signal that a command names, by number or by name. -/
def signal? (t : Text) : Option Nat :=
  ((Numeral.digits? t).map Numeral.value) <|> Association.lookup signals t

/-- Sends a signal; the shell can end itself. -/
def kill (s : Shell) (args : List Text) : Shell :=
  let number := match args with
    | name :: _ :: _ => signal? (name.drop 1)
    | _ => some 15
  if args.getLast? = some (Text.ofNat processNumber) then
    { s with ended := some (-((number.getD 15 : Nat) : Int)) }
  else s.leave 0

def exitWith (s : Shell) (args : List Text) : Shell :=
  let status := match args with
    | t :: _ => (((Numeral.digits? t).map Numeral.value).getD 2) % 256
    | [] => s.status
  { s with ended := some status }

/-- Runs a command with its arguments. -/
def execute (s : Shell) (k : Sinks) (line : Nat) (name : Text) (args : List Text) : Shell :=
  match name.toString with
  | "echo" =>
    let (newline, args) : Bytes × List Text :=
      if args.head? = some "-n" then ([], args.drop 1) else ([10], args)
    leave (s.write k.output (unescape true 0 (Text.join " " args) ++ newline)) 0
  | "printf" => leave (s.write k.output (unescape false 0 (fillFormat args.length (args.headD []) (args.drop 1)))) 0
  | "exit" => s.exitWith args
  | "kill" => s.kill args
  | "true" => s.leave 0
  | ":" => s.leave 0
  | "false" => s.leave 1
  | "/bin/cat" => s.copy k args
  | "/bin/sleep" => leave { s with duration := s.duration + milliseconds (args.headD []) } 0
  | _ => s.notFound k line name

/-- A command is run, by the status of the one before. -/
def isDue (s : Shell) : Script.Condition → Bool
  | .always => true
  | .success => s.status = 0
  | .failure => s.status ≠ 0

/-- Ends the shell with the command that has run. -/
def finish (s : Shell) : Shell := { s with ended := some (s.ended.getD s.status) }

def runCommand (s : Shell) (c : Script.Command) : Shell :=
  if s.ended.isSome || !s.isDue c.condition then s
  else match c.words.flatMap s.expand with
    | [] => s.leave 0
    | [name] => s.execute (c.redirections.foldl redirect {}) c.line name []
    | name :: next :: args =>
      let k := c.redirections.foldl redirect {}
      if name = "exec" then (s.execute k c.line next args).finish
      else s.execute k c.line name (next :: args)

def run (s : Shell) (script : Text) : Ended :=
  let s := (Script.commands script).foldl runCommand s
  { exit := ⟨s.ended.getD s.status, s.stdout, s.stderr⟩, duration := s.duration }

end Shell

end Legible.Machine
