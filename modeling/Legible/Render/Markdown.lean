import Legible.Diagnostic
import Legible.Message.Segment
/-!
Diagnostics as Markdown: a header, prose lines and fenced code.
-/

namespace Legible

namespace Markdown

/-- The marks that open and close a block of code. -/
def fence : Text := "```"

/-- The lines of one segment: trimmed prose, or a block of the code's lines that are not empty. -/
def segmentLines : Segment → List Text
  | .code content lang =>
    let lang := if lang.isEmpty then Segment.defaultLang else lang
    let body := (content.splitAtEach '\n').filter fun l => !l.isEmpty
    [] :: (fence ++ lang) :: body ++ [fence, []]
  | .text content _ => if content.trim.isEmpty then [] else [content.trim]

def lines (segments : List Segment) : List Text := segments.flatMap segmentLines

/-- The code of a diagnostic, with an empty line behind it, if it can be written. -/
def codeLines : Option Diagnostic.Code → Except NumeralError (List Text)
  | some c => c.shown.map fun t => ["**Code:** " ++ t, ""]
  | none => .ok []

/-- The source of a diagnostic, with an empty line behind it. -/
def sourceLines : Option Text → List Text
  | some s => if s.isEmpty then [] else ["**Source:** " ++ s, ""]
  | none => []

/-- The code and the source of a diagnostic. -/
def headerLines (d : Diagnostic) : Except NumeralError (List Text) :=
  (codeLines d.code).map (· ++ sourceLines d.source)

end Markdown

/-- A diagnostic ready to be shown. -/
structure View where
  title : Text
  lines : List Text
deriving DecidableEq, Repr

namespace View

def text (v : View) : Text := Text.unlines v.lines

/-- The title over a diagnostic: a fixed one, or that of its severity. An empty title counts as none. -/
def titleOf (d : Diagnostic) : Option Text → Text
  | some t => if t.isEmpty then d.title else t
  | none => d.title

/-- A diagnostic with its segments, if its code can be written. -/
def ofDiagnostic (d : Diagnostic) (segments : List Segment) (title : Option Text) : Except NumeralError View :=
  (Markdown.headerLines d).map fun header => ⟨titleOf d title, header ++ Markdown.lines segments⟩

end View

end Legible
