import Legible.Config.Layers
import Legible.Toml.Writer
/-!
The starter file of settings: a text with comments, or the built-in settings where that text cannot be
read.
-/

namespace Legible

namespace Template

/-- The starter file. -/
def builtIn : Text :=
  Text.unlines <| List.map Text.ofString
    ["# TSErrors configuration",
     "#",
     "# Place this file as `tserrors.toml` in your project (or copy the tables under",
     "# `[tool.tserrors]` in `pyproject.toml`). Files are discovered upward from the",
     "# current directory; set `root = true` to stop discovery at this directory.",
     "",
     "# root = true",
     "",
     "[formatter]",
     "# Formatter executable. Leave unset to auto-detect `prettier`, then `prettierd`",
     "# (Mason bin dir and `search_paths` are searched before PATH).",
     "# cmd = \"prettier\"",
     "",
     "# Arguments passed to regular `prettier` after `--print-width <n>`.",
     "# `prettierd` ignores CLI options and is always called as `prettierd stdin.ts`.",
     "args = [\"--parser\", \"typescript\"]",
     "",
     "# Line width requested from the formatter.",
     "print_width = 60",
     "",
     "# Deadline for one formatting process, in milliseconds.",
     "timeout_ms = 3000",
     "",
     "# Block on a cache miss when producing inline messages.",
     "sync_format = true",
     "",
     "# Extra directories searched for a formatter before PATH.",
     "search_paths = []",
     "",
     "[cache]",
     "# Cache formatted snippets by content.",
     "enabled = true",
     "",
     "# The cache is cleared completely once it holds this many entries.",
     "max_entries = 100",
     "",
     "[display]",
     "# Start formatting type literals as soon as a diagnostic is shown.",
     "format_on_open = true",
     "",
     "# Fixed title for rendered diagnostics. Leave unset to use the severity.",
     "# title = \" TS Error \"",
     ""]

/-- The name of the starter file. -/
def fileName : Text := "tserrors-default.toml"

/-- The line that ends the head of the file, which is not for the reader. -/
def headEnd : Text := "# topmark:header:end"

/-- What stands behind the head, where a line ends it; `line` has begun, and is held in reverse. -/
def behindHead? (line : Text) : Text → Option Text
  | [] => if Text.trim line.reverse = headEnd then some [] else none
  | c :: r =>
    if c.isLineBreak then
      if Text.trim line.reverse = headEnd then some r else behindHead? [] r
    else behindHead? (c :: line) r

/-- A file's text without its head and the empty lines behind it. -/
def withoutHead (t : Text) : Text :=
  match behindHead? [] t with
  | some r => r.dropWhile CodePoint.isNewline
  | none => t

/-- The starter file that is made from the built-in settings, with a note on why it is. -/
def generated (reason : Text) : Text :=
  "# NOTE: The packaged template '" ++ fileName ++ "' could not be read.\n# Reason: " ++ reason
    ++ "\n# The content below was generated from TSErrors runtime defaults.\n\n"
    ++ Toml.render Config.default.toTable

/-- A text for a starter file, and why it is not the one that was asked for. -/
structure Starter where
  text : Text
  fault : Option (FileFault × Text) := none

end Template

/-- The starter file at a path, or the built-in one. -/
def Host.starter (h : Host) (file : Option Path) : Except ConfigError Template.Starter :=
  match file with
  | none => .ok { text := Template.builtIn }
  | some p => match h.files.read h.environment.directory p with
    | .error f =>
      let reason := f.message p.text
      .ok { text := Template.generated reason, fault := some (f, reason) }
    | .ok bytes => match Utf8.decode bytes with
      | .error e => .error (.notUtf8 e)
      | .ok t => .ok { text := Template.withoutHead t.unifyNewlines }

end Legible
