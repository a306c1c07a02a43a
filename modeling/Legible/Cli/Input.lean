import Legible.Cli.Failure
import Legible.Json.Reader
/-!
The diagnostics that a command is about: its words, or what stands on standard input; plain text or JSON.
-/

namespace Legible

/-- Standard input. -/
structure Stdin where
  /-- What stands there, or why it cannot be read. -/
  content : Except Text Text := .ok []
  terminal : Bool := false

namespace Input

/-- The word for standard input. -/
def stdinMark : Text := "-"

/-- Standard input without the line feeds at its end. -/
def ofStdin (s : Stdin) : Except Failure Text :=
  match s.content with
  | .ok t => .ok (Text.dropEndWhile CodePoint.isNewline t.unifyNewlines)
  | .error e => .error (.refused .input ("Cannot read diagnostic from STDIN: " ++ e))

/-- The text of a command, whatever it holds. -/
def rawText (messages : List Text) (s : Stdin) : Except Failure Text :=
  if messages = [stdinMark] || (messages.isEmpty && !s.terminal) then ofStdin s
  else if messages.contains stdinMark then
    .error (.refused .usage "'-' (read from STDIN) cannot be combined with other messages.")
  else .ok (Text.join " " messages)

/-- The text of a command: its words with blanks between them, or standard input. White space is no
text. -/
def text (messages : List Text) (s : Stdin) : Except Failure Text := do
  let t ← rawText messages s
  if t.isAllBlank then
    throw (.refused .usage "No diagnostic message given (pass MESSAGE or '-' for STDIN).")
  return t

/-- What is said of a text that is no JSON. -/
def jsonFailure : Json.Error → Failure
  | .malformed fault line column position =>
    .refused .data ("Invalid diagnostic JSON: " ++ fault.message ++ ": "
      ++ Json.placeText line column position)
  | .number e => .numeral e
  | .tooDeep n => .tooDeep n

/-- Diagnostic number `n` of a JSON text. -/
def diagnostic (n : Nat) (j : Json) : Except Failure Diagnostic :=
  let place := "Diagnostic #" ++ Text.ofNat n
  match j with
  | .obj members => (Diagnostic.ofMembers members).mapError fun e => .refused .data (place ++ ": " ++ e.text)
  | _ => .error (.refused .data (place ++ " is not a JSON object"))

/-- The items of a JSON array, or a value that stands alone. -/
def items : Json → List Json
  | .arr vs => vs
  | v => [v]

/-- The diagnostics of a JSON text: one object, or an array of them. -/
def ofJson (t : Text) : Except Failure (List Diagnostic) :=
  match Json.parse t with
  | .error e => .error (jsonFailure e)
  | .ok j => (items j).zipIdx.mapM fun (v, n) => diagnostic n v

/-- What is said besides a plain message. -/
structure Labels where
  severity : Option Text := none
  source : Option Text := none
  code : Option Text := none
deriving DecidableEq, Repr

/-- The severity of a plain message; a text that is given has to name one. -/
def severity : Option Text → Except Failure (Option Severity)
  | none => .ok none
  | some t => match Severity.parse t with
    | .error e => .error (.numeral e)
    | .ok (some s) => .ok (some s)
    | .ok none => .error (.refused .usage ("Unknown severity '" ++ t ++ "'"))

/-- The diagnostics of a command; there is at least one. -/
def diagnostics (messages : List Text) (json : Bool) (labels : Labels) (s : Stdin) :
    Except Failure (List Diagnostic) := do
  let t ← text messages s
  if json then
    let ds ← ofJson t
    if ds.isEmpty then throw (.refused .data "Diagnostic JSON list is empty")
    return ds
  else
    let severity ← severity labels.severity
    return [{ message := t, severity, source := labels.source, code := labels.code.map .text }]

end Input

end Legible
