import Legible.Service.Client
/-!
A diagnostic as one line, with its types formatted as far as they are known.
-/

namespace Legible.Service

/-- A type in the line: from the cache, by a blocking run if the settings say so, or as it is, while a
run on the clock fills the cache for the next time. -/
def inlineCode (s : Service) (content : Text) : Except Fault Text × Service :=
  match s.cache.get? content with
  | some t => (.ok t, s)
  | none =>
    if s.config.syncFormat then
      let (o, s) := s.formatBlocking content
      (o.map (·.text), s)
    else if s.onClock then
      let (n, s) := s.request content .nobody
      (n.map fun _ => content, s)
    else (.ok content, s)

/-- The parts of the line, trimmed prose and types in quotes, up to a fault. -/
def inlineParts (s : Service) : List Segment → Except Fault (List Text) × Service
  | [] => (.ok [], s)
  | .text content _ :: r =>
    let (ps, s) := inlineParts s r
    (ps.map (Text.trim content :: ·), s)
  | .code content _ :: r => match s.inlineCode content with
    | (.error f, s) => (.error f, s)
    | (.ok t, s) =>
      let (ps, s) := inlineParts s r
      (ps.map (("'" ++ t ++ "'") :: ·), s)

/-- The message of a diagnostic as one line. -/
def inline (s : Service) (d : Diagnostic) : Except Fault Text × Service :=
  let (ps, s) := s.inlineParts (Message.segments d.message)
  (ps.map (Text.join " "), s)

end Legible.Service
