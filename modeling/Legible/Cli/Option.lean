import Legible.Cli.Choice
import Legible.Text.Quoted
/-!
What the program can be asked to do, and the options of each of its tasks.
-/

namespace Legible.Cli

inductive Opt where
  | help
  | quiet
  | verbose
  | noColor
  | color
  | json
  | severity
  | source
  | code
  | title
  | format
  | noFormat
  | noCache
  | blocking
  | timeout
  | printWidth
  | formatter
  | config
  | noConfig
deriving DecidableEq, Repr

/-- How an option is written, and what it does. -/
structure OptForm where
  /-- Its names; the last one is the long one. -/
  names : List Text
  /-- The names that say the contrary. -/
  contrary : List Text := []
  /-- The word for its value, if it takes one. -/
  value : Option Text := none
  /-- What it does. -/
  about : Text

namespace Opt

/-- How an option is written, and what it does. -/
def form : Opt → OptForm
  | help => { names := ["-h", "--help"], about := "Show this message and exit." }
  | quiet => { names := ["-q", "--quiet"], about := "Suppress non-essential output." }
  | verbose =>
    { names := ["-v", "--verbose"], about := "Increase verbosity (show formatter errors, banners)." }
  | noColor =>
    { names := ["--no-color"], about := "Disable color output (equivalent to --color=never)." }
  | color =>
    { names := ["--color"], value := some (Text.upper (Choice.name ColorMode))
      about := "Color output: auto (default), always, or never." }
  | json =>
    { names := ["--json"], about := "Input is LSP-style diagnostic JSON (an object or a list of objects)." }
  | severity =>
    { names := ["--severity"], value := some "TEXT"
      about := "Severity of a plain MESSAGE (error, warning, info, hint or 1..4)." }
  | source =>
    { names := ["--source"], value := some "TEXT", about := "Source of a plain MESSAGE (e.g. 'ts')." }
  | code =>
    { names := ["--code"], value := some "TEXT", about := "Code of a plain MESSAGE (e.g. 2322)." }
  | title =>
    { names := ["--title"], value := some "TEXT", about := "Fixed title instead of the severity title." }
  | format =>
    { names := ["--format"], value := some (Text.upper (Choice.name OutputFormat))
      about := "Output format (" ++ Text.join ", " (Choice.words OutputFormat) ++ ")." }
  | noFormat => { names := ["--no-format"], about := "Do not run the formatter." }
  | noCache => { names := ["--no-cache"], about := "Disable the format cache." }
  | blocking =>
    { names := ["--sync"], contrary := ["--async"]
      about := "Run the formatter blocking (sync) or through the event loop (async)." }
  | timeout =>
    { names := ["--timeout-ms"], value := some "INTEGER RANGE"
      about := "Formatter deadline in milliseconds.  [x>=1]" }
  | printWidth =>
    { names := ["--print-width"], value := some "INTEGER RANGE"
      about := "Line width requested from the formatter.  [x>=1]" }
  | formatter =>
    { names := ["--formatter-cmd"], value := some "EXE"
      about := "Formatter executable (skips auto-detection of prettier/prettierd)." }
  | config =>
    { names := ["--config"], value := some "FILE", about := "Additional config file(s) to load and merge." }
  | noConfig =>
    { names := ["--no-config"], about := "Ignore user and project config files (only use defaults)." }

/-- The name by which messages speak of an option. -/
def label (o : Opt) : Text := Text.join " / " (o.form.names.map Quoted.encode)

end Opt

/-- What the program can be asked to do. -/
inductive Verb where
  /-- The program as a whole. -/
  | program
  | showing
  | inlining
  | segmenting
  /-- The tasks about settings. -/
  | settings
  | dumping
  | defaults
  | starting
  | version
deriving DecidableEq, Repr

namespace Verb

/-- The word for a task. -/
def word : Verb → Text
  | program => "tserrors"
  | showing => "show"
  | inlining => "inline"
  | segmenting => "segments"
  | settings => "config"
  | dumping => "dump"
  | defaults => "defaults"
  | starting => "init"
  | version => "version"

/-- The tasks that a task is divided into, in the order of their words. -/
def parts : Verb → List Verb
  | program => [settings, inlining, segmenting, showing, version]
  | settings => [defaults, dumping, starting]
  | _ => []

/-- The part of a task that a word is for. -/
def part? (v : Verb) (word : Text) : Option Verb := v.parts.find? fun p => p.word = word

/-- The words of the tasks that a task is a part of, and its own. -/
def path : Verb → Text
  | program => word program
  | dumping => "tserrors config dump"
  | defaults => "tserrors config defaults"
  | starting => "tserrors config init"
  | t => word program ++ " " ++ word t

/-- What a task does. -/
def about : Verb → Text
  | program => "TSErrors: readable TypeScript diagnostics with pretty-printed types."
  | showing =>
    "Render TypeScript diagnostics with pretty-printed types. MESSAGE words are joined with spaces; use '-' (or pipe input) to read from STDIN."
  | inlining => "Print diagnostics as single lines with formatted types."
  | segmenting => "Show the text/code segments of a diagnostic message."
  | settings => "Inspect and scaffold TSErrors configuration."
  | dumping => "Dump the effective configuration (defaults, config files, CLI overrides) as TOML."
  | defaults => "Display the built-in default configuration as TOML."
  | starting => "Print an annotated starter configuration file (save it as tserrors.toml)."
  | version => "Show the current version of TSErrors."

/-- The options about formatting. -/
def formatting : List Opt := [.noCache, .blocking, .timeout, .printWidth, .formatter]

/-- The options about files of settings. -/
def settingFiles : List Opt := [.config, .noConfig]

/-- The options of a task, in the order of its help. -/
def options : Verb → List Opt
  | program => [.quiet, .verbose, .noColor, .color, .help]
  | showing =>
    [.json, .severity, .source, .code, .title, .format, .noFormat] ++ formatting ++ settingFiles ++ [.help]
  | inlining => [.json] ++ formatting ++ settingFiles ++ [.help]
  | segmenting => [.json, .format, .help]
  | dumping => formatting ++ settingFiles ++ [.help]
  | version => [.format, .help]
  | _ => [.help]

/-- The task takes the words of a message. -/
def takesMessage : Verb → Bool
  | showing => true
  | inlining => true
  | segmenting => true
  | _ => false

/-- The arguments of a task in its usage. -/
def usage : Verb → Text
  | program => "[OPTIONS] [COMMAND] [ARGS]..."
  | settings => "[OPTIONS] COMMAND [ARGS]..."
  | t => if t.takesMessage then "[OPTIONS] [MESSAGE]..." else "[OPTIONS]"

end Verb

end Legible.Cli
