import Legible.Text.Blank
/-!
A type expression as a program that the formatter can read, and back. The type becomes the right side of
an alias; the dots of a shortened type, which are no type, become a name.
-/

namespace Legible.Wrapping

/-- The mark of a shortened type. -/
def ellipsis : Text := "..."

/-- The name that stands for the dots. -/
def placeholder : Text := "__TS_ELLIPSIS__"

/-- What stands before the type, up to the equals sign. -/
def aliasHead : Text := "type __TSErrorsType__ ="

/-- Puts the name for the dots. -/
def sanitize (t : Text) : Text := Text.replace ellipsis placeholder t

/-- Puts the dots for the name. -/
def restore (t : Text) : Text := Text.replace placeholder ellipsis t

/-- The alias of a type. -/
def wrap (t : Text) : Text := aliasHead ++ " " ++ sanitize t ++ ";"

/-- Removes one line feed at the end. -/
def dropFinalNewline (t : Text) : Text := if t.endsWith "\n" then t.dropLast else t

/-- Removes the head of the alias and the white space behind it. -/
def dropHead (t : Text) : Text :=
  match Text.dropStart? aliasHead t with
  | some r => r.dropWhile CodePoint.isBlank
  | none => t

/-- Removes a semicolon that only white space follows, and that white space. -/
def dropSemicolon (t : Text) : Text :=
  match (Text.trimEnd t).reverse with
  | c :: r => if c = ';' then r.reverse else t
  | [] => t

/-- The type in the formatter's output. -/
def unwrap (output : Text) : Text := restore (dropSemicolon (dropHead (dropFinalNewline output)))

end Legible.Wrapping
