import Legible.Json.Basic
import Legible.Render.Report
/-!
Segments and rendered diagnostics as JSON documents.
-/

namespace Legible

def Json.ofText? (t : Option Text) : Json := (t.map Json.str).getD .null

def Json.ofTexts (ts : List Text) : Json := .arr (ts.map .str)

/-- A segment: its kind, its content and, of code, its language. -/
def Segment.toJson (s : Segment) : Json :=
  let language : List (Text × Json) := match s.lang with
    | some l => [("lang", .str l)]
    | none => []
  .obj (("kind", .str s.kind.name) :: ("content", .str s.content) :: language)

/-- The segments of a message. -/
def Message.toJson (message : Text) : Json :=
  .obj [("message", .str message), ("segments", .arr ((Message.segments message).map Segment.toJson))]

/-- A code in its own type. -/
def Diagnostic.Code.toJson : Diagnostic.Code → Json
  | text t => .str t
  | number n => .int n

/-- A rendered diagnostic: what it was, how it is shown, and what went wrong. -/
def Report.toJson (r : Report) : Json :=
  let d := r.diagnostic
  .obj [("message", .str d.message), ("severity", .ofText? (d.severity.map fun s => Text.lower s.name)),
    ("source", .ofText? d.source), ("code", (d.code.map Diagnostic.Code.toJson).getD .null),
    ("title", .str r.view.title), ("lines", .ofTexts r.view.lines),
    ("segments", .arr (r.segments.map Segment.toJson)), ("errors", .ofTexts r.errors)]

end Legible
