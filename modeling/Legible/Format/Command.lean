import Legible.Files.Path
/-!
The formatter's command line.
-/

namespace Legible

/-- An executable; a daemon is told the kind of file by a name and takes no options. -/
structure Command where
  executable : Text
  isDaemon : Bool := false
deriving DecidableEq, Repr

namespace Command

/-- The name of the formatter. -/
def formatter : Text := "prettier"

/-- The name of its daemon. -/
def daemon : Text := "prettierd"

/-- The file name that a daemon is given. -/
def daemonHint : Text := "stdin.ts"

/-- The command of an executable; a daemon is known by its file name. -/
def ofExecutable (executable : Text) : Command :=
  ⟨executable, Text.startsWith (Path.ofText executable).name daemon⟩

/-- The command line of one run. -/
def argv (c : Command) (printWidth : Int) (args : List Text) : List Text :=
  if c.isDaemon then [c.executable, daemonHint]
  else [c.executable, "--print-width", Text.ofInt printWidth] ++ args

end Command

end Legible
