import Legible.Cli.Values
import Legible.Log.Basic
import Legible.Service.Basic
import Legible.Terminal.Console
/-!
A call of the program and what comes of it: text on two streams, runs of the formatter, and perhaps an
early end.
-/

namespace Legible.Cli

/-- A call of the program. -/
structure Call where
  args : List Text
  stdin : Stdin := {}
  host : Host
  formatter : Formatter
  /-- Standard output is a terminal. -/
  terminal : Bool := false
  /-- A file to take the place of the built-in starter file. -/
  starter : Option Path := none

/-- What came of a call so far. -/
structure Progress where
  output : Output := {}
  runs : List Run := []
  console : Console := ⟨false⟩
deriving DecidableEq, Repr

/-- A part of the program's work; where it ends early, what came of it so far is kept. -/
abbrev Action := ExceptT Stop (StateM Progress)

/-- What all tasks of a call have in common. -/
structure Scene where
  call : Call
  console : Console
  log : Log
  verbosity : Int

namespace Action

/-- A text for standard error, which shows surrogates by their numbers. -/
def showSurrogates (t : Text) : Text :=
  t.flatMap fun c => if c.isSurrogate then "\\u" ++ Text.hex 4 c.val else [c]

/-- Writes. Standard output does not take surrogates. -/
def emit (o : Output) : Action Unit :=
  match Utf8.EncodeError.find? CodePoint.isSurrogate o.out with
  | some u => throw (.failure (.output u))
  | none => modify fun p => { p with output := p.output ++ { o with err := showSurrogates o.err } }

/-- Ends the work where there is a reason to. -/
def orStop (x : Except Stop α) : Action α :=
  match x with
  | .ok a => pure a
  | .error s => throw s

/-- Ends the work where something failed. -/
def orFail (x : Except Failure α) : Action α := orStop (x.mapError .failure)

end Action

namespace Scene

/-- Writes a line on standard output. -/
def print (s : Scene) (t : Text) : Action Unit := Action.emit (s.console.print t)

def warn (s : Scene) (t : Text) : Action Unit := Action.emit (s.console.warn t)

/-- Writes a warning to the log. -/
def logWarning (s : Scene) (t : Text) : Action Unit :=
  Action.emit { err := s.log.write { level := .warning, message := t } }

/-- Takes notice of what a service has done: its runs, and its warnings but for the first ones. -/
def follow (s : Scene) (seen : Nat) (service : Service) : Action Unit := do
  modify fun p => { p with runs := service.runs }
  (service.warnings.drop seen).forM s.logWarning

end Scene

/-- The scene of a call whose first options have been read. -/
def prepare (call : Call) (w : Values) : Action Scene := do
  let e := call.host.environment
  let verbosity ← Action.orFail (Values.verbosity w.verbose w.quiet)
  let level ← Action.orFail ((LogLevel.ofEnvironment e).mapError .numeral)
  let log ← Action.orFail ((Log.setUp e level).mapError .numeral)
  let mode := if w.noColor then .never else w.color.getD .auto
  let console : Console := ⟨mode.isOn none e call.terminal⟩
  modify fun p => { p with console := console }
  return { call, console, log, verbosity }

end Legible.Cli
