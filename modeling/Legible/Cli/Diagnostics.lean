import Legible.Cli.Settings
import Legible.Json.Writer
import Legible.Render.Document
import Legible.Render.Inline
/-!
The tasks about diagnostics: showing them, as documents or as single lines, and showing their segments.
-/

namespace Legible.Cli.Scene

/-- The service that a task uses. -/
def service (s : Scene) (config : Config) (onClock : Bool) : Action Service := do
  let h := s.call.host
  let locator ← Action.orFail ((Locator.ofConfig config h.environment).mapError fun f => .settings (.place f))
  return { Service.create config locator (fun l => h.which l.name l.directory) s.call.formatter with onClock }

/-- The diagnostics rendered: without the formatter, with blocking runs, or on a clock. -/
def reports (s : Scene) (w : Values) (config : Config) (ds : List Diagnostic) : Action (List Report) := do
  let service ← s.service config (!config.syncFormat)
  if w.noFormat then return ← Action.orFail ((ds.mapM (Service.reportPlain config)).mapError .service)
  let (rs, service) :=
    if config.syncFormat then service.reportAllBlocking ds else service.reportAllOnClock ds
  s.follow 0 service
  Action.orFail (rs.mapError .service)

/-- The colour of a title. -/
def titleInk : Option Severity → Ink
  | some .error => .named .red true
  | some .warning => .named .yellow false
  | some .info => .named .blue false
  | some .hint => .named .cyan false
  | none => .named .magenta false

/-- The title of a report for a terminal. -/
def styledTitle (s : Scene) (r : Report) : Text :=
  s.console.styled
    { foreground := some (titleInk r.diagnostic.severity), bold := some true, reverse := some true }
    r.view.title

/-- Writes a report as text. -/
def printReport (s : Scene) (format : OutputFormat) (r : Report) : Action Unit := do
  if format = .markdown then
    s.print ("## " ++ r.view.title.trim)
    s.print []
  else s.print (s.styledTitle r)
  s.print r.view.text
  if 0 < s.verbosity then r.errors.forM fun e => s.warn ("[formatter] " ++ e)

/-- Writes items one after the other, an empty line between two of them. -/
def separated (s : Scene) (write : α → Action Unit) : List α → Action Unit
  | [] => pure ()
  | a :: r => do
    write a
    r.forM fun b => do
      s.print []
      write b

def showDiagnostics (s : Scene) (w : Values) (messages : List Text) : Action Unit := do
  let config ← s.settings w
  let ds ← Action.orFail (Input.diagnostics messages w.json w.labels s.call.stdin)
  let rs ← s.reports w config ds
  match w.format.getD .terminal with
  | .json => s.print ((Json.arr (rs.map Report.toJson)).pretty 0)
  | format => s.separated (s.printReport format) rs

/-- Writes diagnostics as single lines. -/
def printInline (s : Scene) (service : Service) : List Diagnostic → Action Unit
  | [] => pure ()
  | d :: r => do
    let (line, next) := service.inline d
    s.follow service.warnings.length next
    s.print (← Action.orFail (line.mapError .service))
    printInline s next r

/-- Shows diagnostics as single lines. There is no clock: what is not formatted at once stays as it is. -/
def showInline (s : Scene) (w : Values) (messages : List Text) : Action Unit := do
  let config ← s.settings w
  let ds ← Action.orFail (Input.diagnostics messages w.json {} s.call.stdin)
  s.printInline (← s.service config false) ds

/-- The language of a segment between brackets, if it has one. -/
def language (opening closing : Text) (seg : Segment) : Text :=
  match seg.lang with
  | none => []
  | some l => if l.isEmpty then [] else opening ++ l ++ closing

def segmentLine (s : Scene) (format : OutputFormat) (seg : Segment) : Text :=
  if format = .markdown then
    "- **" ++ seg.kind.name ++ "**" ++ language " (" ")" seg ++ ": `" ++ seg.content ++ "`"
  else
    s.console.styled (.ofInk (.named .cyan false)) (seg.kind.name ++ language "[" "]" seg) ++ "\t"
      ++ Quoted.encode seg.content

def showSegments (s : Scene) (w : Values) (messages : List Text) : Action Unit := do
  let ds ← Action.orFail (Input.diagnostics messages w.json {} s.call.stdin)
  match w.format.getD .terminal with
  | .json => s.print ((Json.arr (ds.map fun d => Message.toJson d.message)).pretty 0)
  | format =>
    s.separated (fun (d : Diagnostic) =>
      (Message.segments d.message).forM fun seg => s.print (s.segmentLine format seg)) ds

end Legible.Cli.Scene
