import Legible.Json.Basic
import Legible.Text.Case
import Legible.Text.Numeral
import Legible.Text.Quoted
/-!
Diagnostics as an editor or a compiler hands them over: a message, and perhaps a severity, a source and
a code.
-/

namespace Legible

/-- How grave a diagnostic is. -/
inductive Severity where
  | error
  | warning
  | info
  | hint
deriving DecidableEq, Repr

namespace Severity

/-- All severities, from the gravest on. -/
def all : List Severity := [error, warning, info, hint]

/-- The number that editors use, from 1 for errors to 4 for hints. -/
def number : Severity → Int
  | error => 1
  | warning => 2
  | info => 3
  | hint => 4

/-- The name in capitals. -/
def name : Severity → Text
  | error => "ERROR"
  | warning => "WARNING"
  | info => "INFO"
  | hint => "HINT"

/-- The title over a diagnostic, between blanks. -/
def title : Severity → Text
  | error => " Error "
  | warning => " Warning "
  | info => " Info "
  | hint => " Hint "

def ofNumber? (n : Int) : Option Severity := all.find? (·.number = n)

/-- The other names that two severities go by. -/
def fullName (t : Text) : Text :=
  if t = "WARN" then "WARNING" else if t = "INFORMATION" then "INFO" else t

/-- The severity of a name in capitals. -/
def ofName? (t : Text) : Option Severity := all.find? (·.name = fullName t)

/-- Reads a number or a name, in letters of either case. A text of digits has to be a numeral; digits
that take no part in numerals make it an error. -/
def parse (t : Text) : Except NumeralError (Option Severity) :=
  let key := t.trim.upper
  if !key.isEmpty && key.all CodePoint.isDigit then (Numeral.parse key).map ofNumber?
  else .ok (ofName? key)

/-- Reads a whole number or a text; other values give no severity. -/
def ofJson : Json → Except NumeralError (Option Severity)
  | .int n => .ok (ofNumber? n)
  | .str t => parse t
  | _ => .ok none

end Severity

namespace Diagnostic

inductive Code where
  | text (value : Text)
  | number (value : Int)
deriving DecidableEq, Repr

/-- The code in writing; a number may have too many digits for that. -/
def Code.shown : Code → Except NumeralError Text
  | text t => .ok t
  | number n => Numeral.shown n

end Diagnostic

structure Diagnostic where
  message : Text
  severity : Option Severity := none
  source : Option Text := none
  code : Option Diagnostic.Code := none
deriving DecidableEq, Repr

namespace Diagnostic

/-- The title of a diagnostic whose severity is not known. -/
def defaultTitle : Text := " Diagnostic "

/-- The severity's title, or a general one. -/
def title (d : Diagnostic) : Text := (d.severity.map Severity.title).getD defaultTitle

/-- Why a JSON object is no diagnostic. -/
inductive Error where
  /-- The message is missing or no text. -/
  | message
  /-- The severity is made of digits but no number. -/
  | severity (error : NumeralError)
deriving Repr

/-- The code of a JSON value: a text or a whole number. -/
def codeOfJson? : Json → Option Code
  | .str t => some (.text t)
  | .int n => some (.number n)
  | _ => none

/-- The diagnostic that the members of an object describe; other members are left out of account. -/
def ofMembers (members : List (Text × Json)) : Except Error Diagnostic :=
  match Association.lookup members "message" with
  | some (.str message) =>
    match Severity.ofJson ((Association.lookup members "severity").getD .null) with
    | .error e => .error (.severity e)
    | .ok severity =>
      let source := match Association.lookup members "source" with
        | some (.str t) => some t
        | _ => none
      .ok { message, severity, source, code := (Association.lookup members "code").bind codeOfJson? }
  | _ => .error .message

end Diagnostic

/-- What is said of an object that is no diagnostic. -/
def Diagnostic.Error.text : Diagnostic.Error → Text
  | message => "diagnostic 'message' must be a string"
  | severity e => e.message

end Legible
