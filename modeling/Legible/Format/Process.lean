import Legible.Format.Outcome
import Legible.Text.Lines
import Legible.Text.Utf8
/-!
The text on either side of a process: what is written to it, and what it leaves behind in bytes.
-/

namespace Legible

/-- The end of a process. A negative status is the signal that ended it. -/
structure Exit where
  status : Int
  stdout : Bytes := []
  stderr : Bytes := []
deriving DecidableEq, Repr

namespace ProcessResult

/-- The bytes of an input text; a surrogate, which has none, becomes a question mark. -/
def inputBytes (t : Text) : Bytes := Utf8.encodeReplacing t

/-- The result of a process on the clock: bytes that are no UTF-8 become U+FFFD. -/
def ofExit (argv : List Text) (e : Exit) : ProcessResult where
  argv := argv
  status := e.status
  stdout := Utf8.decodeReplacing e.stdout
  stderr := Utf8.decodeReplacing e.stderr

/-- The result of a blocking process, in which every line end is a line feed. -/
def ofBlockingExit (argv : List Text) (e : Exit) : ProcessResult :=
  let r := ofExit argv e
  { r with stdout := r.stdout.unifyNewlines, stderr := r.stderr.unifyNewlines }

end ProcessResult

/-- What a process leaves behind for its arguments and the bytes that it reads. -/
abbrev Program := List Text → Bytes → Exit

namespace Program

/-- The result of a program whose end the caller waits for. -/
def runBlocking (program : Program) (argv : List Text) (input : Text) : ProcessResult :=
  .ofBlockingExit argv (program argv (ProcessResult.inputBytes input))

/-- The result of a program that runs on the clock. -/
def runOnClock (program : Program) (argv : List Text) (input : Text) : ProcessResult :=
  .ofExit argv (program argv (ProcessResult.inputBytes input))

end Program

end Legible
