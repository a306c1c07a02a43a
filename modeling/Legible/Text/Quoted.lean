import Legible.Text.Printable
/-!
Text between quotes, with everything escaped that could not be shown as it is.
-/

namespace Legible

namespace Text

/-- The hexadecimal digit of a value below sixteen. -/
def hexDigit (n : Nat) : CodePoint :=
  if n < 10 then .ofNat (48 + n) else .ofNat (87 + n)

/-- The last `width` hexadecimal digits of a number, in small letters. -/
def hex : Nat → Nat → Text
  | 0, _ => []
  | width + 1, n => hex width (n / 16) ++ [hexDigit (n % 16)]

end Text

/-- The value of a hexadecimal digit. -/
def CodePoint.hexValue? (c : CodePoint) : Option Nat :=
  if c.isAsciiDigit then some (c.val - 48)
  else if c.within 'a' 'f' then some (c.val - 87)
  else if c.within 'A' 'F' then some (c.val - 55)
  else none

namespace Quoted

/-- A character inside the quotes. -/
def escape (quote c : CodePoint) : Text :=
  if c = quote || c = '\\' then ['\\', c]
  else if c = '\n' then "\\n"
  else if c = '\r' then "\\r"
  else if c = '\t' then "\\t"
  else if c.isPrintable then [c]
  else if c.val < 0x100 then "\\x" ++ Text.hex 2 c.val
  else if c.val < 0x10000 then "\\u" ++ Text.hex 4 c.val
  else "\\U" ++ Text.hex 8 c.val

/-- Single quotes, unless the text has a single quote and no double one. -/
def quoteFor (t : Text) : CodePoint :=
  if t.contains ['\''] && !t.contains ['"'] then '"' else '\''

def encode (t : Text) : Text :=
  let q := quoteFor t
  q :: t.flatMap (escape q) ++ [q]

end Quoted

end Legible
