import Legible.Cli.Diagnostics
import Legible.Cli.Help
/-!
The program as a whole: from its arguments to what it writes and the status that it ends with.
-/

namespace Legible.Cli

def version : Text := "0.3.0"

namespace Scene

def showVersion (s : Scene) (w : Values) : Action Unit :=
  match w.format.getD .terminal with
  | .json => s.print (Json.compact (.obj [("version", .str version)]))
  | .markdown => do
    s.print "# TSErrors Version\n"
    s.print ("**TSErrors version: " ++ version ++ "**")
  | .terminal => do
    let bold := s.console.styled { bold := some true } version
    if 0 < s.verbosity then
      s.print (s.console.styled { bold := some true, underline := some true } "TSErrors version:\n")
      s.print ("    " ++ bold)
    else s.print bold

/-- Shows what the program can do. -/
def showHint (s : Scene) : Action Unit := do
  s.print "Hint: use 'tserrors show MESSAGE' to render a diagnostic."
  s.print []
  s.print (Help.page .program)

/-- Does the work of a task that has no parts. -/
def work (s : Scene) (v : Verb) (w : Values) (messages : List Text) : Action Unit :=
  match v with
  | .showing => s.showDiagnostics w messages
  | .inlining => s.showInline w messages
  | .segmenting => s.showSegments w messages
  | .dumping => s.dump w
  | .defaults => s.printDefaults
  | .starting => s.printStarter
  | .version => s.showVersion w
  | .program => s.showHint
  | .settings => throw (.mistake v .verbMissing)

/-- Reads the arguments of a task that has no parts, and does its work. -/
def perform (s : Scene) (v : Verb) (args : List Text) : Action Unit := do
  let (w, rest) ← Action.orStop (Values.read s.call.host v args)
  if !v.takesMessage && !rest.isEmpty then throw (.mistake v (.surplus rest))
  s.work v w rest

end Scene

/-- The part of a task that its arguments name. Where there is none, and the word is an option, the
arguments are read as options once more. -/
def namedPart (h : Host) (v : Verb) (word : Text) (args : List Text) : Action Verb :=
  match v.part? word with
  | some p => pure p
  | none => do
    let _ ← Action.orStop (Values.read h v (word :: args))
    throw (.mistake v (.unknownVerb word (Text.closest word (v.parts.map Verb.word))))

/-- Goes on with the arguments behind the word for a task. -/
def Scene.enter (s : Scene) (v : Verb) (args : List Text) : Action Unit := do
  if v = .settings then
    if args.isEmpty then throw (.idle v)
    let (_, rest) ← Action.orStop (Values.read s.call.host v args)
    match rest with
    | [] => throw (.mistake v .verbMissing)
    | word :: args => s.perform (← namedPart s.call.host v word args) args
  else s.perform v args

/-- The work of a call. -/
def Call.action (c : Call) : Action Unit := do
  let (w, rest) ← Action.orStop (Values.read c.host .program c.args)
  match rest with
  | [] => (← prepare c w).showHint
  | word :: args =>
    let v ← namedPart c.host .program word args
    (← prepare c w).enter v args

namespace Stop

/-- What is written of an early end. -/
def output (console : Console) : Stop → Output
  | help v => console.print (Help.page v)
  | idle v => { err := console.line (Help.page v) true }
  | mistake v m =>
    let head := if m.showsUsage then Help.usage v ++ "\n" ++ Help.hint v ++ "\n\n" else []
    { err := console.line (head ++ "Error: " ++ m.message) true }
  | failure (.refused _ m) => { err := console.line ("Error: " ++ m) true }
  | failure _ => {}

/-- The status of the process. -/
def status : Stop → Nat
  | help _ => 0
  | idle _ => 2
  | mistake _ _ => 2
  | failure f => f.status

/-- The failure that the program was not prepared for. -/
def fault? : Stop → Option Failure
  | failure (.refused ..) => none
  | failure f => some f
  | _ => none

end Stop

/-- What comes of a call. -/
structure Result where
  status : Nat
  output : Output
  /-- A failure that the program was not prepared for. -/
  fault : Option Failure := none
  /-- The runs of the formatter. -/
  runs : List Run
deriving DecidableEq, Repr

def Call.run (c : Call) : Result :=
  match StateT.run (ExceptT.run c.action) {} with
  | (.ok _, p) => { status := 0, output := p.output, runs := p.runs }
  | (.error stop, p) =>
    let last := stop.output p.console
    { status := stop.status
      output := p.output ++ { last with err := Action.showSurrogates last.err }
      fault := stop.fault?, runs := p.runs }

end Legible.Cli
