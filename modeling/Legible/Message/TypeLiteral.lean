import Legible.Text.Blank
/-!
Which quoted spans are type expressions. The test is careful: prose must not reach the formatter, and a
type taken for prose does no harm.
-/

namespace Legible.Message

/-- A character of a type name: an ASCII letter, a digit or an underscore. -/
def isNameChar (c : CodePoint) : Bool := c.isLetter || c.isAsciiDigit || c = '_'

/-- Opens an object, tuple, function or parenthesised type. -/
def hasOpener : Text → Bool
  | [] => false
  | c :: _ => c = '{' || c = '[' || c = '('

/-- Starts with a capitalised name and an angle bracket, as in `Array<`. -/
def hasGenericHead : Text → Bool
  | [] => false
  | c :: r => c.isUpper && Text.startsWith (r.dropWhile isNameChar) "<"

/-- Starts with a name in small letters and an arrow, as in `x =>`. -/
def hasArrowHead (t : Text) : Bool :=
  let (name, rest) := t.span CodePoint.isLower
  !name.isEmpty && Text.startsWith (Text.trimStart rest) "=>"

/-- Starts like a type expression. -/
def startsLikeType (t : Text) : Bool := hasOpener t || hasGenericHead t || hasArrowHead t

/-- A colon and a name somewhere. -/
def hasAnnotation : Text → Bool
  | [] => false
  | c :: r =>
    (c = ':' && match Text.trimStart r with
      | d :: _ => d.isLetter
      | [] => false) || hasAnnotation r

/-- A brace and, anywhere behind it, its counterpart. -/
def hasBraces : Text → Bool
  | [] => false
  | c :: r => (c = '{' && r.any (· = '}')) || hasBraces r

/-- Holds something that types have: an annotation, an object, a union, an intersection or an arrow. -/
def hasTypeShape (t : Text) : Bool :=
  hasAnnotation t || hasBraces t || t.any (fun c => c = '|' || c = '&') || t.contains "=>"

/-- Shorter spans are never taken for types. -/
def minTypeLength : Nat := 30

/-- The quoted span is a type expression to be formatted. -/
def isTypeLiteral (t : Text) : Bool :=
  decide (minTypeLength ≤ t.length) && startsLikeType t && hasTypeShape t

end Legible.Message
