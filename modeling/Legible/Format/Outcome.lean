import Legible.Format.Wrapping
/-!
What becomes of one request to the formatter: a process result, a failure, an outcome.
-/

namespace Legible

/-- What a finished process leaves behind. A negative status is the signal that ended it. -/
structure ProcessResult where
  argv : List Text
  status : Int
  stdout : Text
  stderr : Text
deriving DecidableEq, Repr

/-- The process succeeded and wrote something. -/
def ProcessResult.ok (r : ProcessResult) : Bool := r.status = 0 && !r.stdout.isEmpty

/-- Why a type was not formatted. -/
inductive FormatFailure where
  /-- A failure in words of its own. -/
  | other (message : Text)
  /-- There is no formatter. -/
  | notFound
  /-- The formatter could not be started. -/
  | notStarted
  /-- The formatter did not finish in time. -/
  | timedOut
  /-- The formatter failed or wrote nothing. -/
  | process (result : ProcessResult)
deriving DecidableEq, Repr

namespace FormatFailure

/-- A text, or a word for its absence. -/
def orEmpty (t : Text) : Text := if t.isEmpty then "(empty)" else t

/-- The failure in words. -/
def message : FormatFailure → Text
  | other m => m
  | notFound => "Prettier not found"
  | notStarted => "Failed to start prettier job"
  | timedOut => "Prettier timed out"
  | process r =>
    "Formatting failed (exit=" ++ Text.ofInt r.status ++ ")\ncmd: " ++ Text.join " " r.argv
      ++ "\nstderr: " ++ orEmpty r.stderr ++ "\nstdout: " ++ orEmpty r.stdout

end FormatFailure

/-- The answer to a request: the formatted text, or the text as it was and an error. -/
structure Outcome where
  text : Text
  error : Option Text := none
deriving DecidableEq, Repr

namespace Outcome

def ok (o : Outcome) : Bool := o.error.isNone

/-- The type as it was, and why. -/
def failed (content : Text) (f : FormatFailure) : Outcome := ⟨content, some f.message⟩

/-- The result without the line feeds at the end of its output. -/
def trimmed (r : ProcessResult) : ProcessResult :=
  { r with
    stdout := Text.dropEndWhile CodePoint.isNewline r.stdout
    stderr := Text.dropEndWhile CodePoint.isNewline r.stderr }

/-- The outcome of a finished process that was to format a type. -/
def ofResult (content : Text) (r : ProcessResult) : Outcome :=
  if r.ok then ⟨Wrapping.unwrap r.stdout, none⟩ else failed content (.process (trimmed r))

end Outcome

end Legible
