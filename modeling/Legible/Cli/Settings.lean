import Legible.Cli.Action
import Legible.Config.Template
/-!
The settings of a call, and the tasks about settings.
-/

namespace Legible.Cli

namespace Scene

/-- Refuses to go on where a file of settings that is named does not exist. -/
def requireFile (s : Scene) (p : Path) : Action Unit := do
  unless ← Action.orFail ((s.call.host.isFile p).mapError .settings) do
    throw (.failure (.refused .settings ("Config file not found: " ++ p.text)))

/-- The settings that a task runs on. What is wrong with them is logged as it is found. -/
def settings (s : Scene) (w : Values) : Action Config := do
  let named := w.configs.map Path.ofText
  named.forM s.requireFile
  let (draft, fault) := s.call.host.gatherLayers s.call.host.environment.directory named w.noConfig
  draft.issues.forM s.logWarning
  if let some e := fault then throw (.failure (.settings e))
  let config ← Action.orFail ((draft.override w.overrides).freeze.mapError .numeral)
  (config.issues.drop draft.issues.length).forM s.logWarning
  return config

/-- The marks around settings. -/
def beginMark : Text := "# === BEGIN ==="

/-- The mark behind settings. -/
def endMark : Text := "# === END ==="

/-- A text without the line feeds at its end. -/
def chomp (t : Text) : Text := Text.dropEndWhile CodePoint.isNewline t

/-- Writes the settings of a call. -/
def dump (s : Scene) (w : Values) : Action Unit := do
  let config ← s.settings w
  if 0 < s.verbosity then
    config.sources.forM fun source =>
      s.print (s.console.styled { dim := some true } ("# from: " ++ source.text))
  config.issues.forM fun issue => s.warn ("[config] " ++ issue)
  s.print beginMark
  let table := config.toTable
  if Toml.anyPairTooWide table then throw (.failure (.numeral .tooWide))
  s.print (chomp (Toml.render table))
  s.print endMark

/-- Writes a document of settings, below a title if more is to be said. -/
def printDocument (s : Scene) (title toml : Text) : Action Unit := do
  let mark := s.console.styled { foreground := some (.named .cyan false), dim := some true }
  if 0 < s.verbosity then
    s.print (s.console.styled { bold := some true, underline := some true } title)
    s.print (mark beginMark)
  s.print (s.console.styled (.ofInk (.named .cyan false)) (chomp toml))
  if 0 < s.verbosity then s.print (mark endMark)

/-- Writes the built-in settings. -/
def printDefaults (s : Scene) : Action Unit :=
  s.printDocument "Default TSErrors Configuration (TOML):" (Toml.render Config.default.toTable)

/-- Writes the starter file. -/
def printStarter (s : Scene) : Action Unit := do
  let t ← Action.orFail ((s.call.host.starter s.call.starter).mapError .settings)
  if let some (_, reason) := t.fault then
    let file := (s.call.starter.map Path.text).getD []
    s.logWarning ("Cannot read packaged default config template " ++ file ++ ": " ++ reason)
    s.warn ("Packaged template unavailable (" ++ reason ++ "); printing generated defaults.")
  s.printDocument "Initial TSErrors Configuration (TOML):" t.text

end Scene

end Legible.Cli
