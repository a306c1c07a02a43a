import Legible.Text.Blank
import Legible.Text.Utf8
/-!
Shell scripts cut into commands: words with quotes and parameters, redirections, and what joins one
command to the next. Pipes, compound commands and substitutions are not among them.
-/

namespace Legible.Script

/-- A piece of a word. -/
inductive Piece where
  | plain (t : Text)
  /-- A parameter, and whether it stands in quotes. -/
  | parameter (name : Text) (quoted : Bool)
deriving DecidableEq, Repr

/-- A word of a command; quotes may make an empty one. -/
abbrev Word := List Piece

/-- A part of a script. -/
inductive Token where
  | word (w : Word)
  /-- A character that is no part of a word, after a number that stands right before it. -/
  | mark (c : CodePoint) (number : Option Nat)
  | newline
deriving DecidableEq, Repr

/-- In what kind of quotes the reader is. -/
inductive Quoting where
  | none
  | single
  | double
deriving DecidableEq, Repr

/-- What the reader has begun and not ended. -/
inductive Pending where
  | nothing
  | backslash
  | dollar
  | name (n : Text)
  | braced (n : Text)
deriving DecidableEq, Repr

/-- A reader of scripts: the word that has begun and the tokens before it, held in reverse. -/
structure Reader where
  quoting : Quoting := .none
  pending : Pending := .nothing
  word : Option Word := none
  tokens : List Token := []
deriving DecidableEq, Repr

namespace Reader

/-- Adds a piece to the word. -/
def add (r : Reader) (p : Piece) : Reader :=
  let pieces := match r.word.getD [], p with
    | .plain t :: ps, .plain u => .plain (t ++ u) :: ps
    | ps, p => p :: ps
  { r with word := some pieces, pending := .nothing }

/-- Adds a character to the word. -/
def addChar (r : Reader) (c : CodePoint) : Reader := r.add (.plain [c])

/-- Adds a parameter to the word. -/
def addParameter (r : Reader) (name : Text) : Reader := r.add (.parameter name (r.quoting = .double))

def endWord (r : Reader) : Reader :=
  match r.word with
  | some w => { r with word := none, tokens := .word w.reverse :: r.tokens }
  | none => r

/-- The number that a word is, where it is a file to be redirected. -/
def fileNumber? : Option Word → Option Nat
  | some [.plain [c]] => if c.isAsciiDigit then some (c.val - 48) else none
  | _ => none

/-- A character that separates words and has a meaning of its own. -/
def isMark (c : CodePoint) : Bool := c = ';' || c = '&' || c = '|' || c = '<' || c = '>'

/-- Reads a character outside quotes. -/
def readPlain (r : Reader) (c : CodePoint) : Reader :=
  if c = '\n' then let r := r.endWord; { r with tokens := .newline :: r.tokens }
  else if c.isBlank then r.endWord
  else if c = '\'' then { r with quoting := .single, word := some (r.word.getD []) }
  else if c = '"' then { r with quoting := .double, word := some (r.word.getD []) }
  else if c = '\\' then { r with pending := .backslash }
  else if c = '$' then { r with pending := .dollar }
  else if isMark c then
    match (if c = '<' || c = '>' then fileNumber? r.word else none) with
    | some n => { r with word := none, tokens := .mark c (some n) :: r.tokens }
    | none => let r := r.endWord; { r with tokens := .mark c none :: r.tokens }
  else r.addChar c

/-- Reads a character that nothing is pending before. -/
def readChar (r : Reader) (c : CodePoint) : Reader :=
  match r.quoting with
  | .none => r.readPlain c
  | .single => if c = '\'' then { r with quoting := .none } else r.addChar c
  | .double =>
    if c = '"' then { r with quoting := .none }
    else if c = '\\' then { r with pending := .backslash }
    else if c = '$' then { r with pending := .dollar }
    else r.addChar c

/-- A letter, digit or underscore. -/
def isNameChar (c : CodePoint) : Bool := c.isLetter || c.isAsciiDigit || c = '_'

/-- A parameter of one character. -/
def isSpecial (c : CodePoint) : Bool :=
  c.isAsciiDigit || c = '$' || c = '?' || c = '#' || c = '@' || c = '*'

/-- Reads a character behind a backslash. -/
def readEscaped (r : Reader) (c : CodePoint) : Reader :=
  if r.quoting = .double && !(c = '"' || c = '\\' || c = '$' || c = Char.ofNat 96 || c = '\n') then
    (r.addChar '\\').addChar c
  else if c = '\n' then { r with pending := .nothing }
  else r.addChar c

def read (r : Reader) (c : CodePoint) : Reader :=
  match r.pending with
  | .nothing => r.readChar c
  | .backslash => r.readEscaped c
  | .dollar =>
    if isSpecial c then r.addParameter [c]
    else if c = '\x7b' then { r with pending := .braced [] }
    else if isNameChar c then { r with pending := .name [c] }
    else (r.addChar '$').readChar c
  | .name n =>
    if isNameChar c then { r with pending := .name (n ++ [c]) } else (r.addParameter n).readChar c
  | .braced n => if c = '\x7d' then r.addParameter n else { r with pending := .braced (n ++ [c]) }

def finish (r : Reader) : List Token :=
  let r := match r.pending with
    | .dollar => r.addChar '$'
    | .name n => r.addParameter n
    | _ => r
  r.endWord.tokens.reverse

end Reader

/-- The parts of a script. -/
def tokens (t : Text) : List Token := (t.foldl Reader.read {}).finish

/-- Where an output is directed to. -/
inductive Target where
  | file (w : Word)
  /-- Where another output goes. -/
  | number (n : Nat)
deriving DecidableEq, Repr

/-- A redirection of an output. -/
structure Redirection where
  number : Nat
  target : Target
deriving DecidableEq, Repr

/-- When a command is run. -/
inductive Condition where
  | always
  /-- The one before succeeded. -/
  | success
  /-- The one before failed. -/
  | failure
deriving DecidableEq, Repr

structure Command where
  condition : Condition := .always
  line : Nat
  words : List Word := []
  redirections : List Redirection := []
deriving DecidableEq, Repr

/-- A reader of commands: the one that has begun and those before it, in reverse. -/
structure Parser where
  current : Command := { line := 1 }
  done : List Command := []
  /-- Marks that wait for what follows. -/
  marks : List (CodePoint × Option Nat) := []
deriving DecidableEq, Repr

namespace Parser

/-- Ends a command. -/
def next (p : Parser) (c : Condition) (line : Nat) : Parser :=
  let done := if p.current.words.isEmpty && p.current.redirections.isEmpty then p.done
    else p.current :: p.done
  { current := { condition := c, line }, done, marks := [] }

def number? : Word → Option Nat
  | [.plain [c]] => if c.isAsciiDigit then some (c.val - 48) else none
  | _ => none

/-- Adds a word to the command, or makes it the target of a redirection. -/
def word (p : Parser) (w : Word) : Parser :=
  let redirect (r : Redirection) : Parser :=
    { p with current := { p.current with redirections := p.current.redirections ++ [r] }, marks := [] }
  match p.marks with
  | [] => { p with current := { p.current with words := p.current.words ++ [w] } }
  | ms =>
    let (c, n) := ms.getLastD (';', none)
    if c = '>' then
      if ms.any fun m => m.1 = '&' then
        redirect ⟨n.getD 1, ((number? w).map Target.number).getD (.file w)⟩
      else redirect ⟨n.getD 1, .file w⟩
    else { p with marks := [] }

def mark (p : Parser) (c : CodePoint) (n : Option Nat) : Parser :=
  if c = ';' then p.next .always p.current.line
  else match p.marks with
    | [] => { p with marks := [(c, n)] }
    | (d, _) :: _ =>
      if c = '&' && d = '&' then p.next .success p.current.line
      else if c = '|' && d = '|' then p.next .failure p.current.line
      else { p with marks := (c, n) :: p.marks }

/-- Reads a part of a script. -/
def read (p : Parser) : Token → Parser
  | .word w => p.word w
  | .mark c n => p.mark c n
  | .newline => p.next .always (p.current.line + 1)

end Parser

def commands (t : Text) : List Command :=
  (((tokens t).foldl Parser.read {}).next .always 1).done.reverse

end Legible.Script
