import Legible.Text.Basic
/-!
White space as Unicode has it (bidirectional types WS, B and S, and separators), and trimming.
-/

namespace Legible

/-- White space: the ASCII controls from tab to carriage return and from FS to US, the blank, NEL,
the no-break spaces and the separators of Unicode; no zero-width character. -/
def CodePoint.isBlank (c : CodePoint) : Bool :=
  (9 ≤ c.val && c.val ≤ 13) || (28 ≤ c.val && c.val ≤ 32) || c.val = 0x85 || c.val = 0xA0 ||
  c.val = 0x1680 || (0x2000 ≤ c.val && c.val ≤ 0x200A) || c.val = 0x2028 || c.val = 0x2029 ||
  c.val = 0x202F || c.val = 0x205F || c.val = 0x3000

namespace Text

/-- Removes the white space at the start. -/
def trimStart (t : Text) : Text := t.dropWhile CodePoint.isBlank

/-- Removes the white space at the end. -/
def trimEnd (t : Text) : Text := t.dropEndWhile CodePoint.isBlank

/-- Removes the white space at both ends. -/
def trim (t : Text) : Text := t.trimStart.trimEnd

/-- Holds white space only. -/
def isAllBlank (t : Text) : Bool := t.all CodePoint.isBlank

end Text

end Legible
