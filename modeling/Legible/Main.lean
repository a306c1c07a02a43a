import Legible.Cli.Program
/-!
The command line. It looks at the files that a call may be about, runs the call on them, and writes what
comes of it. It starts no processes: types that need a formatter are shown as they are.
-/

namespace Legible.Main

/-- The variables that the program looks at. -/
def variableNames : List String :=
  ["HOME", "PATH", "XDG_CONFIG_HOME", "XDG_DATA_HOME", "FORCE_COLOR", "NO_COLOR", "TSERRORS_LOG_LEVEL"]

/-- The variables that are set. -/
def bindings : IO (List (Text × Text)) := do
  let found ← variableNames.mapM fun n => do
    return (← IO.getEnv n).map fun v => (Text.ofString n, Text.ofString v)
  return found.filterMap id

/-- What stands at a path, if anything does. -/
def look (p : Path) : IO (Option FileNode) := do
  try
    let bytes ← IO.FS.readBinFile p.text.toString
    return some (.file bytes.toList false)
  catch
    | .noFileOrDirectory .. => return none
    | _ => return some .directory

/-- The files that are read for their settings whatever the arguments are. -/
def settingFiles (e : Environment) : List Path :=
  let places := (Host.userPlaces e).toOption.getD []
  let parts := e.directory.parts
  let here := (List.range (parts.length + 1)).map fun n => { e.directory with parts := parts.take n }
  (here.flatMap fun d => [d.child Host.sharedName, d.child Host.ownName])
    ++ places.map (Path.resolve e.directory)

/-- The files that arguments may name. -/
def namedFiles (e : Environment) (args : List Text) : List Path :=
  args.map fun a => e.directory.resolve (.ofText ((Cli.Arguments.attachment a).2.getD a))

/-- The machine as far as a call can see it. -/
def host (args : List Text) : IO Host := do
  let directory := Path.ofText (Text.ofString (← IO.currentDir).toString)
  let e : Environment := { bindings := ← bindings, directory }
  let found ← (settingFiles e ++ namedFiles e args).mapM fun p => do
    return (← look p).map fun n => (p.parts, n)
  return { environment := e, files := { nodes := found.filterMap id } }

/-- Everything on a stream. -/
partial def readAll (s : IO.FS.Stream) (seen : Text) : IO Text := do
  let line ← s.getLine
  if line.isEmpty then return seen else readAll s (seen ++ Text.ofString line)

/-- Standard input, where the call may want it. -/
def stdin (args : List Text) : IO Stdin := do
  let s ← IO.getStdin
  let terminal ← s.isTty
  if terminal && !args.contains Input.stdinMark then return { terminal }
  try return { content := .ok (← readAll s []), terminal }
  catch e => return { content := .error (Text.ofString (toString e)), terminal }

/-- A formatter that cannot be started. -/
def formatter : Formatter := fun _ _ => { startFault := some "processes are not started here" }

end Legible.Main

open Legible in
/-- Runs the program. -/
def main (args : List String) : IO UInt32 := do
  let args := args.map Text.ofString
  let out ← IO.getStdout
  let call : Cli.Call :=
    { args, stdin := ← Main.stdin args, host := ← Main.host args, formatter := Main.formatter
      terminal := ← out.isTty }
  let r := call.run
  out.putStr r.output.out.toString
  let err ← IO.getStderr
  err.putStr r.output.err.toString
  if let some f := r.fault then err.putStrLn f.message.toString
  return r.status.toUInt32
