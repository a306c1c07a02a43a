import Legible.Proofs.Config.Finishing
import Legible.Proofs.Config.Schema
import Legible.Proofs.Toml.RoundTrip
/-!
# Settings as a table

The table of finished settings is read as the same settings wherever that is done, if their directories are resolved
(`Draft.ofTable_sections`). Its sections have keys of the schema and values on one line each, so that it can be written
as a document and read back.
-/

namespace Legible

/-- The settings as a layer of their own, without a word on what is wrong. -/
def Config.layer (c : Config) (source : Option Path) : Draft :=
  { c.thaw with sources := (source.map ConfigSource.file).toList, issues := [] }

theorem Config.IsFinished.freeze_layer {c : Config} (hc : c.IsFinished) (source : Option Path) :
    (c.layer source).freeze = .ok { c with sources := (source.map ConfigSource.file).toList, issues := [] } :=
  hc.freeze_with _ _

/-! ## The table of settings -/

namespace Config

/-- A pair for a text that is set. -/
def optional (name : Text) (t : Option Text) : Toml.Table := t.toList.map fun u => (name, .str u)

theorem get?_optional_of_ne {name key : Text} (hne : name ≠ key) (t : Option Text) (pairs : Toml.Table) :
    Toml.get? (optional name t ++ pairs) key = Toml.get? pairs key := by
  cases t with
  | none => rfl
  | some u =>
    rw [Toml.get?, Toml.get?, optional, Option.toList_some, List.map_singleton, List.singleton_append,
      Association.lookup_cons, if_neg hne]

theorem get?_optional_self {name : Text} {pairs : Toml.Table} (hnone : Toml.get? pairs name = none) (t : Option Text) :
    Toml.get? (optional name t ++ pairs) name = t.map .str := by
  cases t with
  | none => exact hnone
  | some u =>
    rw [Toml.get?, optional, Option.toList_some, List.map_singleton, List.singleton_append,
      Association.lookup_cons, if_pos rfl]
    rfl

/-- The pairs of the formatter's section. -/
def formatterPairs (c : Config) : Toml.Table := optional "cmd" c.formatterCmd ++ (
  [("args", .arr (c.formatterArgs.map .str)), ("print_width", .int c.printWidth), ("timeout_ms", .int c.timeoutMs),
   ("sync_format", .bool c.syncFormat), ("search_paths", .arr ((c.searchPaths.map Path.text).map .str))] : Toml.Table)

/-- The pairs of the cache's section. -/
def cachePairs (c : Config) : Toml.Table :=
  [("enabled", .bool c.cacheEnabled), ("max_entries", .int c.cacheMaxEntries)]

/-- The pairs of the display's section. -/
def displayPairs (c : Config) : Toml.Table :=
  ("format_on_open", .bool c.formatOnOpen) :: optional "title" c.title

/-- What a table of settings has, section by section. -/
def sections (c : Config) : List (Text × Toml.Table) :=
  [("formatter", c.formatterPairs), ("cache", c.cachePairs), ("display", c.displayPairs)]

theorem presentPairs_toTable (c : Config) : Toml.presentPairs c.toTable = Toml.ofSections c.sections := by
  have hitems (ts : List Text) : Toml.presentItems (ts.map .str) = ts.map .str := by
    induction ts with
    | nil => rfl
    | cons t ts ih =>
      rw [List.map_cons, Toml.presentItems, ih]
      rfl
  have hpaths : (c.searchPaths.map fun p => Toml.str p.text) = (c.searchPaths.map Path.text).map .str := by
    rw [List.map_map]
    rfl
  rw [toTable, hpaths]
  cases hcmd : c.formatterCmd <;> cases htitle : c.title <;>
    simp only [sections, formatterPairs, cachePairs, displayPairs, optional, Toml.ofSections, Toml.ofText?,
      Toml.presentPairs, Toml.present, Toml.isAbsent, hcmd, htitle, hitems] <;> rfl

end Config

namespace Schema

variable {t : Toml.Table} {place key : Text}

theorem field_of_get? {α : Type} {expected : Text} {read : Toml → Option α} {v : Toml} {a : α}
    (hv : Toml.get? t key = some v) (ha : read v = some a) : field expected read t place key = .ok (some a, []) := by
  simp only [field, hv, ha]

theorem field_of_get?_none {α : Type} {expected : Text} {read : Toml → Option α} (hv : Toml.get? t key = none) :
    field expected read t place key = .ok (none, []) := by
  simp only [field, hv]

theorem textField_of_get? {u : Option Text} (hu : Toml.get? t key = u.map .str) :
    textField t place key = .ok (u, []) := by
  cases u with
  | none => exact field_of_get?_none hu
  | some u => exact field_of_get? hu rfl

theorem textsField_of_get? {ts : List Text} (hv : Toml.get? t key = some (.arr (ts.map .str))) :
    textsField t place key = .ok (some ts, []) := by
  have hfield : field "list" asItems t place key = .ok (some (ts.map .str), []) := field_of_get? hv rfl
  have hothers : (ts.map Toml.str).filter (fun v => (asText v).isNone) = [] := by
    simp [List.filter_eq_nil_iff, asText]
  have htexts : (ts.map Toml.str).filterMap asText = ts := by
    rw [List.filterMap_map]
    exact List.filterMap_some
  simp only [textsField, hfield, hothers, htexts, bind, Except.bind, List.mapM_nil]
  rfl

end Schema

namespace Environment

/-- A resolved path is seen as it is written, wherever it is written. -/
theorem resolveFrom_text {p : Path} (hp : p.IsResolved) (e : Environment) (base : Path) :
    e.resolveFrom base p.text = .ok p := by
  have htilde : Text.startsWith p.text "~" = false := by
    rw [hp.text_eq]
    rfl
  have haccount : accountOf p.text = [] := by rw [accountOf, htilde]; rfl
  have hhome : e.expandHome p.text = p.text := by
    rw [expandHome, htilde]
    rfl
  have hjoin : base.join p = p := if_pos hp.isAbsolute
  rw [resolveFrom, haccount, PathFault.find?_eq_none_iff.mpr Text.isNamable_nil]
  simp only [hhome, hp.ofText_text, hjoin]
  exact resolve_eq_ok_iff.mpr ⟨hp.namable, (hjoin ▸ hp.resolve_eq e.directory base).symm⟩

theorem directories_texts {ps : List Path} (hps : ∀ p ∈ ps, p.IsResolved) (e : Environment) {source : Option Path}
    (hsource : ∀ p ∈ source, p.IsNamable) : e.directories source (ps.map Path.text) = .ok ps := by
  obtain ⟨base, -, heq⟩ := exists_directories_eq e hsource
  rw [heq]
  induction ps with
  | nil => rfl
  | cons p ps ih =>
    obtain ⟨hp, hps⟩ := List.forall_mem_cons.mp hps
    rw [List.map_cons, List.mapM_cons, resolveFrom_text hp, ih hps]
    rfl

end Environment

/-- Nothing in the table of settings is unknown. -/
theorem Config.unknownKeys_sections (c : Config) (source : Option Path) :
    Schema.unknownKeys (Toml.ofSections c.sections) source = [] := by
  obtain ⟨_, cmd, _, _, _, _, _, _, _, _, title, _⟩ := c
  cases cmd <;> cases title <;> rfl

/-- The table of settings is read as these settings. -/
theorem Draft.ofTable_sections {c : Config} (hpaths : ∀ p ∈ c.searchPaths, p.IsResolved) (e : Environment)
    {source : Option Path} (hsource : ∀ p ∈ source, p.IsNamable) :
    Draft.ofTable e (Toml.ofSections c.sections) source = .ok (c.layer source) := by
  have hformatter : Toml.subtable (Toml.ofSections c.sections) Schema.formatter.name = c.formatterPairs := rfl
  have hcache : Toml.subtable (Toml.ofSections c.sections) Schema.cache.name = c.cachePairs := rfl
  have hdisplay : Toml.subtable (Toml.ofSections c.sections) Schema.display.name = c.displayPairs := rfl
  have hdirectories : (some (c.searchPaths.map Path.text)).mapM (e.directories source) = .ok (some c.searchPaths) := by
    rw [Option.mapM_some, Environment.directories_texts hpaths e hsource]
    rfl
  have hunknown := c.unknownKeys_sections source
  have hcmd : Toml.get? c.formatterPairs "cmd" = c.formatterCmd.map .str := Config.get?_optional_self rfl _
  have htitle : Toml.get? c.displayPairs "title" = c.title.map .str := by
    have hbehind : Toml.get? c.displayPairs "title" = Toml.get? (Config.optional "title" c.title ++ []) "title" := by
      rw [List.append_nil]
      rfl
    exact hbehind.trans (Config.get?_optional_self rfl _)
  have hbehind {key : Text} (hne : Text.ofString "cmd" ≠ key) {v : Toml} (hv : Toml.get? _ key = some v) :
      Toml.get? c.formatterPairs key = some v :=
    (Config.get?_optional_of_ne hne _ _).trans hv
  have hargs : Toml.get? c.formatterPairs "args" = some (.arr (c.formatterArgs.map .str)) := hbehind (by decide) rfl
  have hwidth : Toml.get? c.formatterPairs "print_width" = some (.int c.printWidth) := hbehind (by decide) rfl
  have htimeout : Toml.get? c.formatterPairs "timeout_ms" = some (.int c.timeoutMs) := hbehind (by decide) rfl
  have hsync : Toml.get? c.formatterPairs "sync_format" = some (.bool c.syncFormat) := hbehind (by decide) rfl
  have hraw : Toml.get? c.formatterPairs "search_paths" = some (.arr ((c.searchPaths.map Path.text).map .str)) :=
    hbehind (by decide) rfl
  have henabled : Toml.get? c.cachePairs "enabled" = some (.bool c.cacheEnabled) := rfl
  have hentries : Toml.get? c.cachePairs "max_entries" = some (.int c.cacheMaxEntries) := rfl
  have hopen : Toml.get? c.displayPairs "format_on_open" = some (.bool c.formatOnOpen) := rfl
  have hint {t : Toml.Table} {key : Text} {v : Int} (hv : Toml.get? t key = some (.int v)) (place : Text) :
      Schema.intField t place key = .ok (some v, []) := Schema.field_of_get? hv rfl
  have hbool {t : Toml.Table} {key : Text} {v : Bool} (hv : Toml.get? t key = some (.bool v)) (place : Text) :
      Schema.boolField t place key = .ok (some v, []) := Schema.field_of_get? hv rfl
  simp only [Draft.ofTable, hformatter, hcache, hdisplay, hunknown, Schema.textField_of_get? hcmd,
    Schema.textField_of_get? htitle, Schema.textsField_of_get? hargs, Schema.textsField_of_get? hraw,
    hint hwidth, hint htimeout, hbool hsync, hbool henabled, hint hentries, hbool hopen]
  simp only [Except.mapError, bind, Except.bind, hdirectories]
  rfl

/-! ## The sections are well-formed -/

/-- The keys of a section are among those that the schema gives it, in their order. -/
theorem Toml.isSection_of_sublist {s : Table} (keys : List Text) (hbare : ∀ k ∈ keys, IsBareName k)
    (hnodup : keys.Nodup) (hkeys : (s.map (·.1)).Sublist keys) (hvalues : ∀ p ∈ s, IsFlat p.2) : IsSection s where
  names := fun p hp => hbare p.1 (hkeys.subset (List.mem_map.mpr ⟨p, hp, rfl⟩))
  values := hvalues
  nodup := hnodup.sublist hkeys

theorem Schema.isBareName_of_mem {k : Text} (hk : k ∈ topKeys ++ formatter.keys ++ cache.keys ++ display.keys) :
    Toml.IsBareName k := by
  have hall : ∀ k ∈ topKeys ++ formatter.keys ++ cache.keys ++ display.keys,
      k ≠ [] ∧ ∀ c ∈ k, Toml.isBare c = true := by decide
  exact ⟨(hall k hk).1, (hall k hk).2⟩

namespace Config

variable {c : Config}

theorem isFlat_of_mem_optional {name : Text} {t : Option Text} : ∀ p ∈ optional name t, Toml.IsFlat p.2 := by
  intro p hp
  obtain ⟨u, -, rfl⟩ := List.mem_map.mp hp
  exact .scalar (.str u)

theorem isSection_formatterPairs (hwidth : Numeral.isTooWide c.printWidth = false)
    (htimeout : Numeral.isTooWide c.timeoutMs = false) : Toml.IsSection c.formatterPairs := by
  have htexts (ts : List Text) : Toml.IsFlat (.arr (ts.map .str)) := .arr fun v hv => by
    obtain ⟨t, -, rfl⟩ := List.mem_map.mp hv
    exact .str t
  refine Toml.isSection_of_sublist Schema.formatter.keys (fun k hk => Schema.isBareName_of_mem (by simp [hk]))
    (by decide) ?_ (List.forall_mem_append.mpr ⟨isFlat_of_mem_optional, ?_⟩)
  · unfold formatterPairs
    cases c.formatterCmd with
    | none => exact List.drop_sublist 1 Schema.formatter.keys
    | some t => exact List.Sublist.refl Schema.formatter.keys
  · simp only [List.forall_mem_cons]
    exact ⟨htexts _, .scalar (.int hwidth), .scalar (.int htimeout), .scalar (.bool _), htexts _,
      fun _ hp => absurd hp List.not_mem_nil⟩

theorem isSection_cachePairs (hentries : Numeral.isTooWide c.cacheMaxEntries = false) :
    Toml.IsSection c.cachePairs := by
  refine Toml.isSection_of_sublist Schema.cache.keys (fun k hk => Schema.isBareName_of_mem (by simp [hk]))
    (by decide) (List.Sublist.refl Schema.cache.keys) ?_
  simp only [cachePairs, List.forall_mem_cons]
  exact ⟨.scalar (.bool _), .scalar (.int hentries), fun _ hp => absurd hp List.not_mem_nil⟩

theorem isSection_displayPairs : Toml.IsSection c.displayPairs := by
  refine Toml.isSection_of_sublist Schema.display.keys (fun k hk => Schema.isBareName_of_mem (by simp [hk]))
    (by decide) ?_ (List.forall_mem_cons.mpr ⟨.scalar (.bool _), isFlat_of_mem_optional⟩)
  unfold displayPairs
  cases c.title with
  | none => exact List.take_sublist 1 Schema.display.keys
  | some t => exact List.Sublist.refl Schema.display.keys

/-- The sections of settings whose numbers may be written. -/
theorem areSections (hwide : Toml.anyPairTooWide c.toTable = false) : Toml.AreSections c.sections := by
  simp only [toTable, Toml.anyPairTooWide, Toml.hasTooWide, Bool.or_eq_false_iff] at hwide
  obtain ⟨⟨-, -, hwidth, htimeout, -⟩, ⟨-, hentries, -⟩, -⟩ := hwide
  refine { names := ?_, sections := ?_, nodup := ?_ }
  · have hnames : c.sections.map (·.1) = Schema.topKeys.drop 1 := rfl
    exact fun p hp => Schema.isBareName_of_mem
      (by simp [List.mem_of_mem_drop (hnames ▸ List.mem_map.mpr ⟨p, hp, rfl⟩ : p.1 ∈ Schema.topKeys.drop 1)])
  · simp only [sections, List.forall_mem_cons]
    exact ⟨isSection_formatterPairs hwidth htimeout, isSection_cachePairs hentries, isSection_displayPairs,
      fun _ hp => absurd hp List.not_mem_nil⟩
  · exact (by decide : (Schema.topKeys.drop 1).Nodup)

end Config

end Legible
