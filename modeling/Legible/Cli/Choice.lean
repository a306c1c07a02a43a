import Legible.Files.Environment
import Legible.Text.Case
/-!
Words out of a few that an option takes: the form of the output and the use of colour.
-/

namespace Legible

/-- A type whose values are words out of a few. -/
class Choice (α : Type) where
  /-- The name of the type. -/
  name : Text
  /-- All values in order. -/
  all : List α
  /-- The word for a value, in small letters. -/
  word : α → Text

namespace Choice

variable (α : Type) [Choice α]

def words : List Text := (all (α := α)).map word

/-- The value of a word in letters of either case. -/
def find? (t : Text) : Option α := (all (α := α)).find? fun a => word a = t.lower

/-- The words that begin like this. -/
def completions (begun : Text) : List Text := (words α).filter fun w => w.startsWith begun.lower

/-- What is said of a text that is no such word. -/
def refusal (t : Text) : Text :=
  "Invalid value '" ++ t ++ "'. Must be one of: " ++ Text.join ", " (words α)

end Choice

inductive OutputFormat where
  /-- Text for a terminal. -/
  | terminal
  /-- A Markdown document. -/
  | markdown
  /-- One JSON document, which is never coloured. -/
  | json
deriving DecidableEq, Repr

instance : Choice OutputFormat where
  name := "OutputFormat"
  all := [.terminal, .markdown, .json]
  word
    | .terminal => "default"
    | .markdown => "markdown"
    | .json => "json"

/-- When the output is coloured. -/
inductive ColorMode where
  /-- As the environment and the terminal suggest. -/
  | auto
  | always
  | never
deriving DecidableEq, Repr

instance : Choice ColorMode where
  name := "ColorMode"
  all := [.auto, .always, .never]
  word
    | .auto => "auto"
    | .always => "always"
    | .never => "never"

/-- Without a word of the user, a variable can force colour, and another one can forbid it; else a terminal
is coloured. -/
def Environment.suggestsColor (e : Environment) (terminal : Bool) : Bool :=
  if (e.getNonempty? "FORCE_COLOR").any (· ≠ Text.ofString "0") then true
  else if (e.get? "NO_COLOR").isSome then false
  else terminal

/-- The output is coloured. -/
def ColorMode.isOn (mode : ColorMode) (format : Option OutputFormat) (e : Environment) (terminal : Bool) :
    Bool :=
  if format = some .json then false
  else match mode with
    | .always => true
    | .never => false
    | .auto => e.suggestsColor terminal

end Legible
