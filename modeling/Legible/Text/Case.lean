import Legible.Text.Basic
/-!
Letter case for comparison with ASCII names. Only characters whose other-case form is ASCII text are
changed: every other character, changed or not, differs from all ASCII letters.
-/

namespace Legible

namespace CodePoint

/-- The capital form of a character, where that is ASCII text: of an ASCII letter, of `ß`, the
dotless i and the long s, and of the Latin ligatures. -/
def upperForm (c : CodePoint) : Text :=
  if c.isLower then [ofNat (c.val - 32)]
  else match c.val with
    | 0xDF => "SS"
    | 0x131 => "I"
    | 0x17F => "S"
    | 0xFB00 => "FF"
    | 0xFB01 => "FI"
    | 0xFB02 => "FL"
    | 0xFB03 => "FFI"
    | 0xFB04 => "FFL"
    | 0xFB05 => "ST"
    | 0xFB06 => "ST"
    | _ => [c]

/-- The small form of a character, where that is ASCII text: of an ASCII letter and of the kelvin
sign. -/
def lowerForm (c : CodePoint) : Text :=
  if c.isUpper then [ofNat (c.val + 32)]
  else if c.val = 0x212A then "k" else [c]

end CodePoint

namespace Text

/-- Capital letters throughout, as far as an ASCII name can tell. -/
def upper (t : Text) : Text := t.flatMap CodePoint.upperForm

/-- Small letters throughout, as far as an ASCII name can tell. -/
def lower (t : Text) : Text := t.flatMap CodePoint.lowerForm

end Text

end Legible
