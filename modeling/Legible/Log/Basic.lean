import Legible.Diagnostic
import Legible.Files.Environment
import Legible.Terminal.Paint
/-!
The log of the program's inner life: levels by number and name, and records as coloured lines. It is
apart from what the program writes for its user.
-/

namespace Legible

/-- How much a record matters; greater numbers matter more. -/
structure LogLevel where
  number : Int
deriving DecidableEq, Repr

namespace LogLevel

/-- Steps of the program, below all that is usually looked at. -/
def trace : LogLevel := ⟨5⟩

/-- Details for those who look for a fault. -/
def debug : LogLevel := ⟨10⟩

def info : LogLevel := ⟨20⟩

/-- Something is amiss, and the program goes on. -/
def warning : LogLevel := ⟨30⟩

/-- Something failed. -/
def error : LogLevel := ⟨40⟩

/-- The program cannot go on. -/
def critical : LogLevel := ⟨50⟩

def unset : LogLevel := ⟨0⟩

def named : List (Text × LogLevel) :=
  [("TRACE", trace), ("DEBUG", debug), ("INFO", info), ("WARNING", warning), ("ERROR", error),
   ("CRITICAL", critical), ("NOTSET", unset)]

/-- Further names that a level can be given by. -/
def aliases : List (Text × LogLevel) := [("WARN", warning), ("FATAL", critical)]

/-- The name of a level, or its number. -/
def name (l : LogLevel) : Text :=
  match named.find? (·.2 = l) with
  | some (n, _) => n
  | none => "Level " ++ Text.ofInt l.number

/-- Reads a level: a numeral or a name in letters of either case; other texts give none. A text of digits
has to be a numeral. -/
def parse (t : Text) : Except NumeralError (Option LogLevel) :=
  let key := t.trim.upper
  if !key.isEmpty && key.all CodePoint.isDigit then
    (Numeral.parse key).map fun n => some ⟨n⟩
  else .ok (Association.lookup (named ++ aliases) key)

/-- The variable that sets the level. -/
def variableName : Text := "TSERRORS_LOG_LEVEL"

/-- The level that the environment asks for. -/
def ofEnvironment (e : Environment) : Except NumeralError (Option LogLevel) :=
  match e.getNonempty? variableName with
  | none => .ok none
  | some t => parse t

end LogLevel

/-- Where in a program a record was made. -/
structure LogPlace where
  file : Text
  line : Int
  function : Text
deriving DecidableEq, Repr

structure LogRecord where
  level : LogLevel
  message : Text
  place : Option LogPlace := none
deriving DecidableEq, Repr

/-- A log from some level on. -/
structure Log where
  level : LogLevel
  color : Bool := true
deriving DecidableEq, Repr

namespace Log

/-- The log at a level; without one, at that of the environment, or for what is critical alone. -/
def setUp (e : Environment) (level : Option LogLevel) : Except NumeralError Log :=
  match level with
  | some l => .ok { level := l }
  | none => (LogLevel.ofEnvironment e).map fun l =>
    { level := (l.filter fun l => l ≠ .unset).getD .critical }

/-- A record of this level is written. -/
def isEnabled (log : Log) (l : LogLevel) : Bool := 0 < l.number && log.level.number ≤ l.number

def paint (l : LogLevel) : Paint :=
  if LogLevel.critical.number ≤ l.number then .ofInk (.named .red true)
  else if LogLevel.error.number ≤ l.number then .ofInk (.named .red false)
  else if LogLevel.warning.number ≤ l.number then .ofInk (.named .yellow false)
  else if LogLevel.info.number ≤ l.number then .ofInk (.named .green false)
  else if LogLevel.debug.number ≤ l.number then .ofInk (.named .black true)
  else if LogLevel.trace.number ≤ l.number then .ofInk (.named .blue false)
  else .dimRed

/-- The place of a record, which a log below the level of information shows. -/
def placeText (log : Log) (r : LogRecord) : Text :=
  if LogLevel.info.number ≤ log.level.number then []
  else match r.place with
    | none => []
    | some p => "[" ++ p.file ++ ":" ++ Text.ofInt p.line ++ "] [" ++ p.function ++ "] "

/-- A record as it is written, or nothing where its level is not. -/
def write (log : Log) (r : LogRecord) : Text :=
  if log.isEnabled r.level then
    let t := "[" ++ r.level.name ++ "] " ++ log.placeText r ++ r.message
    (if log.color then (paint r.level).apply t else t) ++ Text.newline
  else []

end Log

end Legible
