import Legible.Cli.Option
import Legible.Text.Paragraph
/-!
The help of a task: its usage, what it does, its options and its parts, 80 characters wide.
-/

namespace Legible.Cli.Help

/-- The width of the page. -/
def width : Nat := 80

/-- Moves a line to the right. -/
def shift (n : Nat) (t : Text) : Text := Text.repeated ' ' n ++ t

def written (o : Opt) : Text :=
  let f := o.form
  Text.join " / " ((Text.join ", " f.names) :: f.contrary)
    ++ (match f.value with
      | some v => " " ++ v
      | none => [])

/-- The rows of a table of terms and what they stand for. -/
def table (rows : List (Text × Text)) : List Text :=
  let column := (rows.map fun r => r.1.length).foldl max 0 + 2
  rows.flatMap fun (term, about) =>
    match Text.fill (width - column - 2) about with
    | [] => [shift 2 (Text.padEnd column term)]
    | l :: ls => shift 2 (Text.padEnd column term ++ l) :: ls.map (shift (column + 2))

def optionRows (v : Verb) : List (Text × Text) := v.options.map fun o => (written o, o.form.about)

/-- The rows of the parts, each with a summary that fits on its line. -/
def partRows (v : Verb) : List (Text × Text) :=
  let longest := (v.parts.map fun p => p.word.length).foldl max 0
  v.parts.map fun p => (p.word, Text.summary (width - 6 - longest) p.about)

/-- The usage of a task. -/
def usage (v : Verb) : Text := "Usage: " ++ v.path ++ " " ++ v.usage

/-- The page of a task. -/
def page (v : Verb) : Text :=
  let parts := if v.parts.isEmpty then [] else [[], "Commands:"] ++ table (partRows v)
  Text.unlines ([usage v, []] ++ (Text.fill (width - 2) v.about).map (shift 2)
    ++ [[], "Options:"] ++ table (optionRows v) ++ parts)

/-- The way to the help of a task. -/
def hint (v : Verb) : Text := "Try '" ++ v.path ++ " --help' for help."

end Legible.Cli.Help
