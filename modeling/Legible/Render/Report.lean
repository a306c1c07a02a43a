import Legible.Service.Run
/-!
Diagnostics rendered one after the other: blocking, on the clock, or without the formatter.
-/

namespace Legible

/-- A rendered diagnostic, with its segments and what went wrong. -/
structure Report where
  diagnostic : Diagnostic
  view : View
  segments : List Segment
  errors : List Text
deriving DecidableEq, Repr

/-- The report of a diagnostic with these segments under the settings, if its code can be written. -/
def Report.of (config : Config) (d : Diagnostic) (segments : List Segment) (errors : List Text) :
    Except Fault Report :=
  ((View.ofDiagnostic d segments config.title).mapError .code).map fun view => ⟨d, view, segments, errors⟩

namespace Service

/-- Formats the code among segments, each with a blocking run, up to a fault. -/
def formatSegments (s : Service) : List Segment → Except Fault (List Segment × List Text) × Service
  | [] => (.ok ([], []), s)
  | seg :: r =>
    if seg.isCode then
      match s.formatBlocking seg.content with
      | (.error f, s) => (.error f, s)
      | (.ok o, s) =>
        let (rest, s) := formatSegments s r
        (rest.map fun (segs, errors) => (seg.withContent o.text :: segs, o.error.toList ++ errors), s)
    else
      let (rest, s) := formatSegments s r
      (rest.map fun (segs, errors) => (seg :: segs, errors), s)

/-- Renders a diagnostic with blocking runs. -/
def reportBlocking (s : Service) (d : Diagnostic) : Except Fault Report × Service :=
  let (formatted, s) := s.formatSegments (Message.segments d.message)
  (formatted.bind fun (segments, errors) => Report.of s.config d segments errors, s)

/-- Renders a diagnostic as it is. -/
def reportPlain (config : Config) (d : Diagnostic) : Except Fault Report :=
  Report.of config d (Message.segments d.message) []

/-- Renders a diagnostic on the clock. -/
def reportOnClock (s : Service) (shown : Shown) : Except Fault Report × Service :=
  match s.displayAwaited shown with
  | (.error f, s) => (.error f, s)
  | (.ok (some view), s) => (.ok ⟨shown.diagnostic, view, s.session.segments, s.session.errors⟩, s)
  | (.ok none, s) => (reportPlain s.config shown.diagnostic, s)

/-- Threads the service through a list of renderings, up to a fault. -/
def reportEach (render : Service → α → Except Fault Report × Service) (s : Service) :
    List α → Except Fault (List Report) × Service
  | [] => (.ok [], s)
  | x :: r => match render s x with
    | (.error f, s) => (.error f, s)
    | (.ok report, s) =>
      let (reports, s) := reportEach render s r
      (reports.map (report :: ·), s)

/-- Renders diagnostics with blocking runs. -/
def reportAllBlocking (s : Service) (ds : List Diagnostic) : Except Fault (List Report) × Service :=
  reportEach reportBlocking s ds

/-- Renders diagnostics on the clock, and then shows nothing any more. -/
def reportAllOnClock (s : Service) (ds : List Diagnostic) : Except Fault (List Report) × Service :=
  let (reports, s) := reportEach reportOnClock s (ds.zipIdx.map fun (d, n) => ⟨n, d⟩)
  (reports, s.close)

end Service

end Legible
