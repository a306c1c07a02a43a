import Legible.Text.Blank
/-!
Paragraphs: words filled into lines, and the first words as a summary.
-/

namespace Legible.Text

/-- The words and the blanks between them, in turn. -/
def chunks (t : Text) : List Text := t.splitBy fun c d => c.isBlank == d.isBlank

def words (t : Text) : List Text := (chunks t).filter fun w => !isAllBlank w

/-- Goes on with a line that has begun. Blanks stay as they are within a line and are left out around it. -/
def fillFrom (width : Nat) (line : Text) : List Text → List Text
  | [] => if line.isEmpty then [] else [line.trimEnd]
  | w :: r =>
    if isAllBlank w then
      if line.isEmpty then fillFrom width [] r
      else if line.length + w.length ≤ width then fillFrom width (line ++ w) r
      else line :: fillFrom width [] r
    else if line.isEmpty || line.length + w.length ≤ width then fillFrom width (line ++ w) r
    else line.trimEnd :: fillFrom width w r

/-- The lines of a paragraph, each of at most so many characters if its words allow it. -/
def fill (width : Nat) (t : Text) : List Text := fillFrom width [] (chunks t)

/-- Three points for what is left out. -/
def leftOut : Text := "..."

/-- Drops words from the end, held in reverse, until the points fit behind them. -/
def dropToFit (room : Nat) : List Text → List Text
  | [] => []
  | w :: r => if (join " " (w :: r)).length + leftOut.length ≤ room then w :: r else dropToFit room r

/-- As many words as fit, held in reverse, with points behind them. -/
def cutShort (room : Nat) (taken : List Text) : Text :=
  join " " (dropToFit room taken).reverse ++ leftOut

/-- Goes on with a summary whose words so far are held in reverse. -/
def summaryFrom (room : Nat) (taken : List Text) : List Text → Text
  | [] => join " " taken.reverse
  | w :: r =>
    let size := (join " " (w :: taken)).length
    if room < size then cutShort room taken
    else if w.endsWith "." then join " " (w :: taken).reverse
    else if size = room && !r.isEmpty then cutShort room taken
    else summaryFrom room (w :: taken) r

/-- The first sentence of a text where there is room for it; else its first words and three points. -/
def summary (room : Nat) (t : Text) : Text := summaryFrom room [] (words t)

end Legible.Text
