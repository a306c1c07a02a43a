import Legible.Proofs.Cli.Action
import Legible.Proofs.Config.Directories
import Legible.Proofs.Config.Table
import Legible.Proofs.Toml.Lines
/-!
# Settings printed and loaded

The settings of a call come from its layers and its options, and only a log tells what is wrong with them. What a dump
prints of them (`Scene.dumpText`) is a document for a named file: with that file alone, another call has the same
settings, wherever it runs. The file must not have the name of one that several tools share.
-/

namespace Legible.Cli.Scene

open Legible.Cli.Action

variable {s : Scene} {w : Values} {c : Config} {before after : Progress}

/-! ## Settings of a call -/

theorem prints_logWarning (s : Scene) (t : Text) : (s.logWarning t).Prints [] := prints_emit _

theorem prints_logWarnings (s : Scene) (ts : List Text) : (ts.forM s.logWarning).Prints [] :=
  prints_nothing_forM fun t _ => s.prints_logWarning t

theorem prints_requireFile (s : Scene) (p : Path) : (s.requireFile p).Prints [] := by
  refine (prints_orFail _).bind fun stands => ?_
  cases stands
  · exact prints_throw _ []
  · exact prints_pure ()

/-- Settings are those of all layers and of the options on top; on the way there nothing is printed. -/
theorem settings_cases (h : (s.settings w).Runs before c after) : ∃ d,
    s.call.host.gatherLayers s.call.host.environment.directory (w.configs.map .ofText) w.noConfig = (d, none) ∧
      (d.override w.overrides).freeze = .ok c ∧ after.output.out = before.output.out := by
  unfold settings at h
  obtain ⟨_, present, hpresent, h⟩ := runs_bind_iff.mp h
  obtain ⟨⟨d, fault⟩, hlayers⟩ : ∃ r,
      s.call.host.gatherLayers s.call.host.environment.directory (w.configs.map .ofText) w.noConfig = r := ⟨_, rfl⟩
  simp only [hlayers] at h
  obtain ⟨_, warned, hwarned, h⟩ := runs_bind_iff.mp h
  cases fault with
  | some e =>
    obtain ⟨_, _, hthrow, -⟩ := runs_bind_iff.mp h
    exact absurd hthrow (not_runs_throw _)
  | none =>
    obtain ⟨c', _, hfinish, h⟩ := runs_bind_iff.mp h
    obtain ⟨hfreeze, rfl⟩ := runs_orFail_iff.mp hfinish
    obtain ⟨_, frozen, hfrozen, h⟩ := runs_bind_iff.mp h
    obtain ⟨rfl, rfl⟩ := runs_pure_iff.mp h
    refine ⟨d, hlayers, mapError_eq_ok_iff.mp hfreeze, ?_⟩
    rw [prints_logWarnings s _ warned _ frozen hfrozen, prints_logWarnings s _ present _ warned hwarned,
      prints_nothing_forM (fun p _ => s.prints_requireFile p) before _ present hpresent]
    simp only [List.append_nil]

/-- The directories in the settings of a call are resolved. -/
theorem isResolved_of_settings (hdirectory : s.call.host.environment.directory.IsResolved)
    (h : (s.settings w).Runs before c after) : ∀ p ∈ c.searchPaths, p.IsResolved := by
  obtain ⟨d, hlayers, hfreeze, -⟩ := settings_cases h
  have hnamed : ∀ p ∈ w.configs.map Path.ofText, p.parent.HasParts := by
    rw [List.forall_mem_map]
    exact fun t _ => (Path.hasParts_ofText t).parent
  have hd : d.IsResolved := Host.isResolved_of_gatherLayers hdirectory hdirectory.hasParts hnamed hlayers
  exact Draft.IsResolved.freeze (d := d.override w.overrides) hd hfreeze

/-- Where all layers can be had and nothing is wrong with them, the settings are had without a word. -/
theorem runs_settings {d : Draft} {name : Text} (p : Progress)
    (hfile : s.call.host.isFile (.ofText name) = .ok true) (hconfigs : w.configs = [name])
    (hlayers : s.call.host.gatherLayers s.call.host.environment.directory [.ofText name] w.noConfig = (d, none))
    (hfreeze : (d.override w.overrides).freeze = .ok c) (hissues : c.issues = []) : (s.settings w).Runs p c p := by
  have hnone : d.issues = [] :=
    (List.append_eq_nil_iff.mp ((Draft.settles_of_freeze hfreeze).issues.symm.trans hissues)).1
  have hstands : (s.requireFile (.ofText name)).Runs p () p := by
    rw [requireFile, hfile]
    rfl
  unfold settings
  rw [hconfigs, List.map_singleton]
  refine runs_bind_iff.mpr ⟨(), p, runs_bind_iff.mpr ⟨(), p, hstands, rfl⟩, ?_⟩
  simp only [hlayers, hnone, hfreeze]
  refine runs_bind_iff.mpr ⟨(), p, rfl, runs_bind_iff.mpr ⟨c, p, rfl, ?_⟩⟩
  rw [hissues]
  rfl

/-! ## What a dump prints -/

/-- What a dump says of the sources of settings, where more is to be said. -/
def sourcesText (s : Scene) (c : Config) : Text :=
  if 0 < s.verbosity then c.sources.flatMap fun source =>
    s.console.line (s.console.styled { dim := some true } ("# from: " ++ source.text)) true
  else []

/-- What a dump of settings prints: their sources, and their table between marks. -/
def dumpText (s : Scene) (c : Config) : Text :=
  s.sourcesText c ++ s.console.line beginMark true ++ s.console.line (chomp (Toml.render c.toTable)) true ++
    s.console.line endMark true

/-- A dump in its parts: the sources, what is wrong, the mark before the table, and the table with the mark behind. -/
theorem dump_eq (s : Scene) (w : Values) : s.dump w = s.settings w >>= fun c =>
    (if 0 < s.verbosity then c.sources.forM fun source =>
        s.print (s.console.styled { dim := some true } ("# from: " ++ source.text))
      else pure ()) >>= fun _ =>
    (c.issues.forM fun issue => s.warn ("[config] " ++ issue)) >>= fun _ =>
    s.print beginMark >>= fun _ =>
    if Toml.anyPairTooWide c.toTable then throw (.failure (.numeral .tooWide)) else
      s.print (chomp (Toml.render c.toTable)) >>= fun _ => s.print endMark := by
  unfold dump
  refine congrArg (s.settings w >>= ·) (funext fun c => ?_)
  by_cases hmore : 0 < s.verbosity
  · simp only [if_pos hmore]
    rfl
  · simp only [if_neg hmore]
    rfl

theorem dump_cases (h : (s.dump w).Runs before () after) : ∃ c mid, (s.settings w).Runs before c mid ∧
    Toml.anyPairTooWide c.toTable = false ∧ after.output.out = before.output.out ++ s.dumpText c := by
  rw [dump_eq] at h
  obtain ⟨c, mid, hsettings, h⟩ := runs_bind_iff.mp h
  obtain ⟨-, -, -, hquiet⟩ := settings_cases hsettings
  obtain ⟨_, told, htold, h⟩ := runs_bind_iff.mp h
  obtain ⟨_, warned, hwarned, h⟩ := runs_bind_iff.mp h
  obtain ⟨_, begun, hbegun, h⟩ := runs_bind_iff.mp h
  have hsources : told.output.out = mid.output.out ++ s.sourcesText c := by
    rw [sourcesText]
    by_cases hmore : 0 < s.verbosity
    · rw [if_pos hmore] at htold ⊢
      exact prints_forM (fun _ _ => prints_emit _) mid _ told htold
    · rw [if_neg hmore] at htold ⊢
      exact prints_pure () mid _ told htold
  have hissues := prints_nothing_forM (fun _ _ => prints_emit _) told _ warned hwarned
  have hbegin := prints_emit _ warned _ begun hbegun
  cases hwide : Toml.anyPairTooWide c.toTable with
  | true =>
    rw [hwide, if_pos rfl] at h
    exact absurd h (not_runs_throw _)
  | false =>
    rw [hwide, if_neg Bool.false_ne_true] at h
    have hend := (prints_emit _).bind (fun _ => prints_emit _) begun _ after h
    refine ⟨c, mid, hsettings, hwide, ?_⟩
    rw [hend, hbegin, hissues, hsources, hquiet]
    simp only [dumpText, Console.print, List.append_assoc, List.nil_append]

/-- A dump can be read back: the sources that it tells are told without colour, each on a line of its own. -/
def IsReadable (s : Scene) (c : Config) : Prop :=
  0 < s.verbosity → ∀ source ∈ c.sources, s.console.color = false ∧ source.text.IsLine

/-- The remarks on the sources, without the number signs in front. -/
def sourceRemarks (s : Scene) (c : Config) : List Text :=
  if 0 < s.verbosity then c.sources.map fun source => " from: " ++ source.text else []

/-- The remarks before the table. -/
def remarks (s : Scene) (c : Config) : List Text := s.sourceRemarks c ++ [Text.ofString " === BEGIN ==="]

/-- The lines of a dump. -/
def dumpLines (s : Scene) (c : Config) : List Text :=
  (s.remarks c).map (CodePoint.ofChar '#' :: ·) ++ Toml.documentLines c.sections ++ [endMark]

theorem isLine_of_mem_remarks (hread : s.IsReadable c) : ∀ t ∈ s.remarks c, t.IsLine := by
  refine List.forall_mem_append.mpr ⟨?_, List.forall_mem_singleton.mpr (by decide)⟩
  unfold sourceRemarks
  split
  · rename_i hmore
    rw [List.forall_mem_map]
    exact fun source hsource => Text.isLine_append.mpr ⟨by decide, (hread hmore source hsource).2⟩
  · exact fun _ ht => absurd ht List.not_mem_nil

theorem isLine_of_mem_dumpLines (hread : s.IsReadable c) (hss : Toml.AreSections c.sections) :
    ∀ t ∈ s.dumpLines c, t.IsLine := by
  refine List.forall_mem_append.mpr ⟨List.forall_mem_append.mpr ⟨?_, ?_⟩, List.forall_mem_singleton.mpr (by decide)⟩
  · rw [List.forall_mem_map]
    exact fun t ht => Text.isLine_cons.mpr ⟨by decide, isLine_of_mem_remarks hread t ht⟩
  · exact fun t ht => Toml.isLine_of_mem_documentLines hss ht

theorem line_eq_withEnds {t : Text} {ls : List Text} (hls : ∀ l ∈ ls, l.IsLine)
    (ht : t ++ Text.newline = Text.withEnds ls) (console : Console) : console.line t true = Text.withEnds ls := by
  rw [Console.line, if_pos rfl, ht, Text.strip_withEnds hls, ite_self]

theorem line_eq_of_isLine {t : Text} (ht : t.IsLine) (console : Console) : console.line t true = Text.withEnds [t] :=
  line_eq_withEnds (List.forall_mem_singleton.mpr ht) (List.append_nil _).symm console

theorem sourcesText_eq (hread : s.IsReadable c) :
    s.sourcesText c = Text.withEnds ((s.sourceRemarks c).map (CodePoint.ofChar '#' :: ·)) := by
  rw [sourcesText, sourceRemarks]
  by_cases hmore : 0 < s.verbosity
  · have hone (source : ConfigSource) (hsource : source ∈ c.sources) :
        s.console.line (s.console.styled { dim := some true } ("# from: " ++ source.text)) true =
          "# from: " ++ source.text ++ Text.newline := by
      obtain ⟨hplain, hline⟩ := hread hmore source hsource
      rw [Console.styled, hplain, if_neg Bool.false_ne_true,
        line_eq_of_isLine (Text.isLine_append.mpr ⟨by decide, hline⟩)]
      exact List.append_nil _
    rw [if_pos hmore, if_pos hmore, Text.withEnds, List.map_map, List.flatMap_map, List.flatMap_def, List.flatMap_def,
      List.map_congr_left hone]
    rfl
  · rw [if_neg hmore, if_neg hmore]
    rfl

theorem render_toTable (hss : Toml.AreSections c.sections) :
    Toml.render c.toTable = Text.withEnds (Toml.documentLines c.sections) := by
  rw [← Toml.render_presentPairs, c.presentPairs_toTable, Toml.render_eq_withEnds hss]

/-- The table is printed with the one line feed that its last line ends with. -/
theorem line_chomp_render (hss : Toml.AreSections c.sections) (console : Console) :
    console.line (chomp (Toml.render c.toTable)) true = Text.withEnds (Toml.documentLines c.sections) := by
  obtain ⟨ls, l, hls, hl⟩ := Toml.exists_documentLines (show c.sections ≠ [] from List.cons_ne_nil _ _)
  have hlines (t : Text) (ht : t ∈ Toml.documentLines c.sections) := Toml.isLine_of_mem_documentLines hss ht
  refine line_eq_withEnds hlines ?_ console
  rw [render_toTable hss, hls, Text.chomp_withEnds ls (hlines l (by rw [hls]; simp)) hl]

/-- A dump is printed line by line. -/
theorem dumpText_eq (hread : s.IsReadable c) (hss : Toml.AreSections c.sections) :
    s.dumpText c = Text.withEnds (s.dumpLines c) := by
  have hbegin : beginMark.IsLine := by decide
  have hend : endMark.IsLine := by decide
  rw [dumpText, sourcesText_eq hread, line_eq_of_isLine hbegin, line_chomp_render hss, line_eq_of_isLine hend, dumpLines,
    remarks, List.map_append, Text.withEnds_append, Text.withEnds_append, Text.withEnds_append]
  rfl

/-- A dump is read as the table of its settings. -/
theorem parse_dumpText (hread : s.IsReadable c) (hwide : Toml.anyPairTooWide c.toTable = false) :
    Toml.parse (s.dumpText c).unifyNewlines = .ok (Toml.presentPairs c.toTable) := by
  have hss := c.areSections hwide
  rw [dumpText_eq hread hss, Text.unifyNewlines_withEnds (isLine_of_mem_dumpLines hread hss), dumpLines,
    Text.withEnds_append, Text.withEnds_append, ← render_toTable hss, List.append_assoc]
  exact Toml.parse_render c.presentPairs_toTable hss
    (Toml.skipGaps_remarks (isLine_of_mem_remarks hread)) rfl

/-! ## What another call has of it -/

/-- Named alone, a file of its own is the only layer on top of the built-in settings. -/
theorem gatherLayers_of_yields {h : Host} {p : Path} {bytes : Bytes} {t : Toml.Table} {d : Draft}
    (hb : h.HasContent p bytes) (ht : Host.Yields bytes t) (hname : p.name ≠ Host.sharedName)
    (hd : Draft.ofTable h.environment t (some p) = .ok d) (anchor : Path) :
    h.gatherLayers anchor [p] true = (Draft.default.mergeWith d, none) := by
  have hdraft : h.draftOfFile p = .ok (some d) := by
    simp only [Host.draftOfFile, ((Host.readTable_of_hasContent hb).1 t).mpr ht, Host.settingsOf, if_neg hname, bind,
      Except.bind, hd]
    rfl
  have hadd : h.addFile Draft.default p = .ok (Draft.default.mergeWith d) := by
    rw [Host.addFile, hdraft]
    rfl
  rw [Host.gatherLayers]
  simp only [if_true, Host.gather, hadd]

theorem mergeWith_layer (c : Config) (source : Option Path) :
    Draft.default.mergeWith (c.layer source) = c.layer source := by
  obtain ⟨_, cmd, _, _, _, _, _, _, _, _, title, _⟩ := c
  cases cmd <;> cases title <;> rfl

theorem override_nothing (d : Draft) : d.override {} = d := by
  obtain ⟨_, cmd, args, width, timeout, sync, _, enabled, entries, opened, title, _⟩ := d
  rfl

/-- Settings whose directories are resolved are read back from their table, wherever that is read. -/
theorem ofTable_presentPairs (hc : ∀ p ∈ c.searchPaths, p.IsResolved) (e : Environment) {source : Option Path}
    (hsource : ∀ p ∈ source, p.IsNamable) :
    Draft.ofTable e (Toml.presentPairs c.toTable) source = .ok (c.layer source) := by
  rw [Config.presentPairs_toTable]
  exact Draft.ofTable_sections hc e hsource

/-- Finished settings whose directories are resolved are read back from their table, wherever that is read, and those of
a call from what is printed of them: with the printed text in a file of its own, another call that names this file
alone has the same settings. -/
theorem printed_settings_read_back :
    (∀ (d : Draft) (c : Config), d.freeze = .ok c → (∀ p ∈ c.searchPaths, p.IsResolved) →
      ∀ (e : Environment) (source : Option Path), (∀ p ∈ source, p.IsNamable) →
        ∃ d', Draft.ofTable e (Toml.presentPairs c.toTable) source = .ok d' ∧
          d'.freeze = .ok { c with sources := (source.map .file).toList, issues := [] }) ∧
    ∀ (s : Scene) (w : Values) (c : Config) (before mid after : Progress),
      s.call.host.environment.directory.IsResolved → (s.settings w).Runs before c mid →
      (s.dump w).Runs before () after → s.IsReadable c →
      ∃ text, after.output.out = before.output.out ++ text ∧
        ∀ (s' : Scene) (w' : Values) (name : Text) (bytes : Bytes) (p : Progress),
          s'.call.host.HasContent (.ofText name) bytes → Utf8.decode bytes = .ok text →
          (Path.ofText name).name ≠ Host.sharedName →
          w'.configs = [name] → w'.noConfig = true → w'.overrides = {} →
          (s'.settings w').Runs p { c with sources := [.file (.ofText name)], issues := [] } p := by
  refine ⟨fun d c hfreeze hc e source hsource => ?_, fun s w c before mid after hdirectory hsettings hdump hreadable => ?_⟩
  · exact ⟨_, ofTable_presentPairs hc e hsource, (Draft.isFinished_of_freeze hfreeze).freeze_layer source⟩
  obtain ⟨c', mid', hc', hwide, hout⟩ := dump_cases hdump
  obtain ⟨rfl, -⟩ := hsettings.unique hc'
  have hpaths := isResolved_of_settings hdirectory hsettings
  obtain ⟨d, -, hfreeze, -⟩ := settings_cases hsettings
  refine ⟨_, hout, fun s' w' name bytes p hb hdecode hname hconfigs hnone hoverrides => ?_⟩
  have hyields := Host.Yields.document hdecode (parse_dumpText hreadable hwide)
  have hnamable : ∀ q ∈ some (Path.ofText name), q.IsNamable := fun q hq =>
    Option.some.inj hq ▸ (Path.fault?_eq_none_iff.mp hb.1).2
  have hlayers := gatherLayers_of_yields hb hyields hname (ofTable_presentPairs hpaths _ hnamable)
    s'.call.host.environment.directory
  have hagain := (Draft.isFinished_of_freeze hfreeze).freeze_layer (some (Path.ofText name))
  rw [mergeWith_layer, ← hnone] at hlayers
  refine runs_settings p (Host.isFile_eq_true_iff.mpr ⟨bytes, hb⟩) hconfigs hlayers ?_ rfl
  rw [hoverrides, override_nothing]
  exact hagain

/-- The width of a dump is not read back from a file that several tools share, where no section is one of these
settings, nor from a dump whose sources are told in colour or hold a control character, which is no document. -/
theorem shared_name_and_odd_sources_lose_the_width :
    let scene (file : Text) (content : Text) (color : Bool) (verbosity : Int) : Scene := {
      call := {
        args := [], formatter := fun _ _ => {}
        host := { environment := {}, files := { nodes := [([file], .file (Utf8.encode content) false)] } } }
      console := ⟨color⟩, log := { level := .critical }, verbosity }
    let odd : Text := "a\x01.toml"
    let before (color : Bool) (verbosity : Int) : Scene := scene odd "formatter.print_width = 80" color verbosity
    let named (file : Text) : Values := { configs := [file], noConfig := true }
    let d : Draft := { Draft.default with sources := [.file (.ofText odd)], printWidth := some 80 }
    let c : Config := { Config.default with sources := [.file (.ofText odd)], printWidth := 80 }
    let table : List Text := [
      "# === BEGIN ===", "[formatter]", "args = [\"--parser\", \"typescript\"]", "print_width = 80",
      "timeout_ms = 3000", "sync_format = true", "search_paths = []", "",
      "[cache]", "enabled = true", "max_entries = 100", "", "[display]", "format_on_open = true", "# === END ==="]
    let shown : Text := Text.withEnds table
    let remark : Text := "# from: " ++ odd
    let told : Text := Text.withEnds (remark :: table)
    let colored : Text := Text.withEnds (({ dim := some true } : Style).apply remark :: table)
    let lost (file : Text) (text : Text) (sources : List ConfigSource) : Prop :=
      ((scene file text false 0).settings (named file)).Runs {} { Config.default with sources } {}
    d.freeze = .ok c ∧ c.printWidth = 80 ∧ Config.default.printWidth = 60 ∧
      ((before false 0).settings (named odd)).Runs {} c {} ∧
      ((before false 0).dump (named odd)).Runs {} () { output := { out := shown } } ∧
      lost "pyproject.toml" shown [] ∧
      ((before false 1).dump (named odd)).Runs {} () { output := { out := told } } ∧
      lost "saved.toml" told [.file (.ofText "saved.toml")] ∧
      ((before true 1).dump (named odd)).Runs {} () { output := { out := colored } } ∧
      lost "saved.toml" colored [.file (.ofText "saved.toml")] := by
  intro scene odd before named d c table shown remark told colored lost
  unfold lost
  decide +kernel

/-- A command, a width and a directory of a named file and a title among the options are read back from the file that
the dump is saved in, on another machine. -/
theorem printed_directories_read_back :
    let machine (directory : Text) (file : Text) (content : Text) : Host := {
      environment := { bindings := [("HOME", "/home/u")], directory := .ofText directory }
      files := { nodes := [((Path.ofText directory).parts ++ [file], .file (Utf8.encode content) false)] } }
    let scene (h : Host) : Scene := {
      call := { args := [], host := h, formatter := fun _ _ => {} }
      console := ⟨false⟩, log := { level := .critical }, verbosity := 1 }
    let s : Scene := scene (machine "/work" "my.toml"
      "[formatter]\ncmd = 'prettier'\nprint_width = 80\nsearch_paths = ['bin', '~/x y']\n")
    let w : Values := { configs := ["my.toml"], noConfig := true, title := some "a\tb" }
    let d : Draft := { Draft.default with
      sources := [.file (.ofText "my.toml"), .commandLine]
      formatterCmd := some "prettier"
      printWidth := some 80
      searchPaths := some [.ofText "/work/bin", .ofText "/home/u/x y"]
      title := some "a\tb" }
    let c : Config := { Config.default with
      sources := [.file (.ofText "my.toml"), .commandLine]
      formatterCmd := some "prettier"
      printWidth := 80
      searchPaths := [.ofText "/work/bin", .ofText "/home/u/x y"]
      title := some "a\tb" }
    let text : Text := Text.withEnds [
      "# from: my.toml", "# from: <CLI overrides>", "# === BEGIN ===",
      "[formatter]", "cmd = \"prettier\"", "args = [\"--parser\", \"typescript\"]", "print_width = 80",
      "timeout_ms = 3000", "sync_format = true", "search_paths = [\"/work/bin\", \"/home/u/x y\"]", "",
      "[cache]", "enabled = true", "max_entries = 100", "",
      "[display]", "format_on_open = true", "title = \"a\\tb\"", "# === END ==="]
    let s' : Scene := scene (machine "/srv" "saved.toml" text)
    let w' : Values := { configs := ["saved.toml"], noConfig := true }
    d.freeze = .ok c ∧ (s.settings w).Runs {} c {} ∧ (s.dump w).Runs {} () { output := { out := text } } ∧
      (s'.settings w').Runs {} { c with sources := [.file (.ofText "saved.toml")], issues := [] } {} ∧
      ∃ d', Draft.ofTable {} (Toml.presentPairs c.toTable) none = .ok d' ∧
        d'.freeze = .ok { c with sources := [], issues := [] } := by
  have hall {t u : Text} (h : ({ output := { out := t } } : Progress).output.out = ({} : Progress).output.out ++ u) :
      u = t := h.symm
  intro machine scene s w d c text s' w'
  have hfreeze : d.freeze = .ok c := toOption_eq_some_iff.mp (by decide +kernel)
  have hdirectory : s.call.host.environment.directory.IsResolved := by decide +kernel
  have hsettings : (s.settings w).Runs {} c {} := by decide +kernel
  have hdump : (s.dump w).Runs {} () { output := { out := text } } := by decide +kernel
  have hreadable : s.IsReadable c := fun _ => by decide +kernel
  have hdecode : Utf8.decode (Utf8.encode text) = .ok text := toOption_eq_some_iff.mp (by decide +kernel)
  obtain ⟨hback, hloads⟩ := printed_settings_read_back
  obtain ⟨text', hout, hread⟩ := hloads s w _ _ _ _ hdirectory hsettings hdump hreadable
  have hsame := hall hout
  rw [hsame] at hread
  refine ⟨hfreeze, hsettings, hdump, ?_, hback d c hfreeze (by decide +kernel) {} none nofun⟩
  exact hread s' w' "saved.toml" (Utf8.encode text) {} ⟨by decide +kernel, by decide +kernel⟩ hdecode
    (by decide +kernel) rfl rfl rfl

end Legible.Cli.Scene
