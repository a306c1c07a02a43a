import Legible.Text.Basic
/-!
Line breaks: cutting a text into its lines, and one spelling for the line breaks of a file.
-/

namespace Legible

/-- A character that ends a line: line feed, carriage return, the vertical and page breaks, FS, GS, RS,
NEL and the separators of Unicode. -/
def CodePoint.isLineBreak (c : CodePoint) : Bool :=
  (10 ≤ c.val && c.val ≤ 13) || (28 ≤ c.val && c.val ≤ 30) || c.val = 0x85 || c.val = 0x2028 ||
  c.val = 0x2029

namespace Text

/-- Goes on with a line that has begun, held in reverse. -/
def linesFrom (begun : Text) : Text → List Text
  | [] => if begun.isEmpty then [] else [begun.reverse]
  | c :: d :: r =>
    if c = '\r' && d = '\n' then begun.reverse :: linesFrom [] r
    else if c.isLineBreak then begun.reverse :: linesFrom [] (d :: r)
    else linesFrom (c :: begun) (d :: r)
  | [c] => if c.isLineBreak then [begun.reverse] else [(c :: begun).reverse]

/-- The lines of a text, without their ends. A carriage return and the line feed after it are one end;
a text that ends with a line end has no further line. -/
def lines (t : Text) : List Text := linesFrom [] t

/-- Writes every line end of a file, CR LF or CR, as a line feed. -/
def unifyNewlines : Text → Text
  | [] => []
  | c :: d :: r =>
    if c = '\r' then
      if d = '\n' then '\n' :: unifyNewlines r else '\n' :: unifyNewlines (d :: r)
    else c :: unifyNewlines (d :: r)
  | [c] => if c = '\r' then ['\n'] else [c]

end Text

end Legible
