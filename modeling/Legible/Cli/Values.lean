import Legible.Cli.Arguments
import Legible.Cli.Input
/-!
What the options of a command line say, read from their text.
-/

namespace Legible.Cli

/-- Why a task ends before its work is done. -/
inductive Stop where
  /-- Its help was asked for. -/
  | help (v : Verb)
  /-- It needs a part to be named; its help stands in for a message. -/
  | idle (v : Verb)
  | mistake (v : Verb) (m : Mistake)
  | failure (f : Failure)
deriving DecidableEq, Repr

/-- What the options say. -/
structure Values where
  quiet : Nat := 0
  verbose : Nat := 0
  noColor : Bool := false
  color : Option ColorMode := none
  json : Bool := false
  severity : Option Text := none
  source : Option Text := none
  code : Option Text := none
  title : Option Text := none
  format : Option OutputFormat := none
  noFormat : Bool := false
  noCache : Bool := false
  blocking : Option Bool := none
  timeout : Option Int := none
  printWidth : Option Int := none
  formatter : Option Text := none
  configs : List Text := []
  noConfig : Bool := false
deriving DecidableEq, Repr

namespace Values

/-- A word out of a few. -/
def choice (α : Type) [Choice α] (t : Text) : Except Text α :=
  match Choice.find? α t with
  | some a => .ok a
  | none => .error (Choice.refusal α t)

/-- A number from 1 on. -/
def positive (t : Text) : Except Text Int :=
  match Numeral.parse t with
  | .error _ => .error (Quoted.encode t ++ " is not a valid integer range.")
  | .ok n => if n < 1 then .error (Text.ofInt n ++ " is not in the range x>=1.") else .ok n

/-- The texts that are given, in order. -/
def texts (gs : List Given) : List Text :=
  gs.filterMap fun
    | .value t => some t
    | _ => none

def text? (gs : List Given) : Option Text := (texts gs).getLast?

/-- A directory stands where a file of settings should. -/
def namesDirectory (h : Host) (t : Text) : Bool :=
  match h.files.find h.environment.directory (.ofText t) with
  | .ok .directory => !t.isEmpty
  | _ => false

/-- The paths of files; there may be nothing at a path, but no directory. -/
def files (h : Host) (v : Verb) (ts : List Text) : Except Stop (List Text) :=
  ts.mapM fun t => match PathFault.find? t with
    | some f => .error (.failure (.settings (.place (.path f))))
    | none =>
      if namesDirectory h t then
        .error (.mistake v (.badValue .config ("File " ++ Quoted.encode t ++ " is a directory.")))
      else .ok t

/-- Reads the text of an option; of several, the last one counts. -/
def last (v : Verb) (o : Opt) (read : Text → Except Text α) (gs : List Given) : Except Stop (Option α) :=
  match text? gs with
  | none => .ok none
  | some t => ((read t).mapError fun e => .mistake v (.badValue o e)).map some

/-- The values with what is said of one option. -/
def set (h : Host) (v : Verb) (w : Values) (o : Opt) (gs : List Given) : Except Stop Values :=
  match o with
  | .help => .error (.help v)
  | .quiet => .ok { w with quiet := gs.length }
  | .verbose => .ok { w with verbose := gs.length }
  | .noColor => .ok { w with noColor := true }
  | .color => (last v o (choice ColorMode) gs).map fun x => { w with color := x }
  | .json => .ok { w with json := true }
  | .severity => .ok { w with severity := text? gs }
  | .source => .ok { w with source := text? gs }
  | .code => .ok { w with code := text? gs }
  | .title => .ok { w with title := text? gs }
  | .format => (last v o (choice OutputFormat) gs).map fun x => { w with format := x }
  | .noFormat => .ok { w with noFormat := true }
  | .noCache => .ok { w with noCache := true }
  | .blocking => .ok { w with blocking := gs.getLast?.map (· = Given.yes) }
  | .timeout => (last v o positive gs).map fun x => { w with timeout := x }
  | .printWidth => (last v o positive gs).map fun x => { w with printWidth := x }
  | .formatter => .ok { w with formatter := text? gs }
  | .config => (files h v (texts gs)).map fun x => { w with configs := x }
  | .noConfig => .ok { w with noConfig := true }

/-- What arguments say. A wish for help comes before all else; else the first option to be mentioned is
read first. -/
def ofArguments (h : Host) (v : Verb) (a : Arguments) : Except Stop Values :=
  if a.mentioned.contains .help then .error (.help v)
  else a.mentioned.foldlM (fun w o => set h v w o (a.given o)) {}

/-- Cuts the arguments of a task and reads its options. -/
def read (h : Host) (v : Verb) (args : List Text) : Except Stop (Values × List Text) := do
  let a ← (Arguments.cut v.options (!v.parts.isEmpty) args).mapError (.mistake v)
  let w ← ofArguments h v a
  return (w, a.rest)

/-- How much is said besides the results: less than nothing, nothing, or more and more. -/
def verbosity (verbose quiet : Int) : Except Failure Int :=
  if 0 < verbose && 0 < quiet then
    .error (.refused .usage "The '--verbose' and '--quiet' options are mutually exclusive.")
  else .ok (if 0 < quiet then -1 else verbose)

/-- The settings that the options override. -/
def overrides (w : Values) : Overrides where
  formatterCmd := w.formatter
  printWidth := w.printWidth
  timeoutMs := w.timeout
  syncFormat := w.blocking
  cacheEnabled := if w.noCache then some false else none
  title := w.title

/-- What the options say of a plain message. -/
def labels (w : Values) : Input.Labels := ⟨w.severity, w.source, w.code⟩

end Values

end Legible.Cli
