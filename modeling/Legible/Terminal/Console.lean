import Legible.Terminal.Style
/-!
What a program writes for its user: text on standard output, warnings and errors on standard error.
-/

namespace Legible

/-- Text on the two streams. -/
structure Output where
  out : Text := []
  err : Text := []
deriving DecidableEq, Repr

namespace Output

instance : Append Output := ⟨fun a b => ⟨a.out ++ b.out, a.err ++ b.err⟩⟩

/-- One after the other. -/
def concat (os : List Output) : Output := os.foldr (· ++ ·) {}

end Output

/-- How a program writes. -/
structure Console where
  /-- Sequences for colour are written, and not removed. -/
  color : Bool
deriving DecidableEq, Repr

namespace Console

/-- A text as it is written, with a line feed behind it if one is asked for. -/
def line (c : Console) (t : Text) (newline : Bool) : Text :=
  let t := t ++ (if newline then Text.newline else [])
  if c.color then t else Terminal.strip t

def print (c : Console) (t : Text) (newline : Bool := true) : Output := { out := c.line t newline }

/-- Writes an empty line. -/
def blank (c : Console) : Output := c.print []

def warn (c : Console) (t : Text) (newline : Bool := true) : Output :=
  { err := c.line ((Style.ofInk (.named .yellow false)).apply t) newline }

/-- Tells of an error, in bright red. -/
def error (c : Console) (t : Text) (newline : Bool := true) : Output :=
  { err := c.line ((Style.ofInk (.named .red true)).apply t) newline }

/-- A text in a style where there is colour, and as it is elsewhere. -/
def styled (c : Console) (s : Style) (t : Text) : Text := if c.color then s.apply t else t

/-- A text in a style that may turn out to be none, which matters only where there is colour. -/
def styledBy (c : Console) (s : Except InkError Style) (t : Text) : Except InkError Text :=
  if c.color then s.map (·.apply t) else .ok t

end Console

end Legible
