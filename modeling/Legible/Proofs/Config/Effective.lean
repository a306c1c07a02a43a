import Legible.Config.Layers
import Legible.Proofs.Config.Range
import Mathlib.Data.List.Infix
/-!
# Which settings take effect

Settings are gathered layer by layer: the built-in ones, the user's file, the files of the project from the outermost
directory inwards, the files that are named, and what the command line overrides. `Setting` says of one of the ten
fields where it stands in a table, how a value of its type is read, what is built in and how it is overridden; what
takes effect is then the value of the last layer that has one (`Setting.effective`). A draft carries each field along
without knowing of layers (`Setting.isRead`), and only at the end numbers are repaired and empty texts dropped
(`Effective`). Paths are seen from the directory of the file that sets them; the sources are the merged files in order
and the command line if it overrides anything, and the issues are those of the layers in order and of the numbers.
-/

namespace Legible

/-! ## Layers -/

/-- A path that is written in a file, as seen from the directory of that file. -/
def Environment.seenFrom (e : Environment) (file : Path) (raw : Text) : Path :=
  e.directory.resolve ((e.directory.resolve file.parent).join (.ofText (e.expandHome raw)))

/-- A path that is written in a table, as seen from the directory of the file that the table is from, or from the
working directory. -/
def Environment.seen (e : Environment) (source : Option Path) (raw : Text) : Path :=
  match source with
  | some file => e.seenFrom file raw
  | none => e.directory.resolve (e.directory.join (.ofText (e.expandHome raw)))

/-- A file with settings, the table of its settings and the draft that they give. -/
structure FileLayer (h : Host) where
  path : Path
  table : Toml.Table
  draft : Draft
  read : ∃ content, h.readTable path = .ok content ∧ Host.settingsOf path content = some table
  drafted : Draft.ofTable h.environment table (some path) = .ok draft

/-- A layer of settings. -/
inductive Layer (h : Host) where
  | builtIn
  | file (l : FileLayer h)
  | commandLine (o : Overrides)

/-- The built-in settings, those of files one by one, and those of the command line. -/
def layers {h : Host} (files : List (FileLayer h)) (o : Overrides) : List (Layer h) :=
  .builtIn :: files.map .file ++ [.commandLine o]

/-- A field of settings: its place in a table, how a value of the right type is read in a file, its built-in value, and
what the command line sets it to. -/
structure Setting (α : Type) where
  place : Schema.SectionKeys
  key : Text
  read : Environment → Path → Toml → Option α
  builtIn : Option α
  override : Overrides → Option α

namespace Setting

variable {α : Type} {h : Host}

/-- The value in a table, if it has one of the right type. -/
def ofTable (f : Setting α) (e : Environment) (t : Toml.Table) (p : Path) : Option α :=
  (Toml.get? (Toml.subtable t f.place.name) f.key).bind (f.read e p)

/-- The value that a layer sets. -/
def value (f : Setting α) : Layer h → Option α
  | .builtIn => f.builtIn
  | .file l => f.ofTable h.environment l.table l.path
  | .commandLine o => f.override o

/-- The value of the last layer that sets one. -/
def effective (f : Setting α) (ls : List (Layer h)) : Option α := ls.reverse.findSome? f.value

def formatterCmd : Setting Text :=
  ⟨Schema.formatter, "cmd", fun _ _ => Schema.asText, Config.default.formatterCmd, (·.formatterCmd)⟩

def formatterArgs : Setting (List Text) where
  place := Schema.formatter
  key := "args"
  read _ _ v := (Schema.asItems v).map (·.filterMap Schema.asText)
  builtIn := some Config.default.formatterArgs
  override _ := none

def printWidth : Setting Int :=
  ⟨Schema.formatter, "print_width", fun _ _ => Schema.asInt, some Config.default.printWidth, (·.printWidth)⟩

def timeoutMs : Setting Int :=
  ⟨Schema.formatter, "timeout_ms", fun _ _ => Schema.asInt, some Config.default.timeoutMs, (·.timeoutMs)⟩

def syncFormat : Setting Bool :=
  ⟨Schema.formatter, "sync_format", fun _ _ => Schema.asBool, some Config.default.syncFormat, (·.syncFormat)⟩

/-- The paths are seen from the directory of the file. -/
def searchPaths : Setting (List Path) where
  place := Schema.formatter
  key := "search_paths"
  read e p v := (Schema.asItems v).map fun items => (items.filterMap Schema.asText).map (e.seenFrom p)
  builtIn := some Config.default.searchPaths
  override _ := none

def cacheEnabled : Setting Bool :=
  ⟨Schema.cache, "enabled", fun _ _ => Schema.asBool, some Config.default.cacheEnabled, (·.cacheEnabled)⟩

def cacheMaxEntries : Setting Int :=
  ⟨Schema.cache, "max_entries", fun _ _ => Schema.asInt, some Config.default.cacheMaxEntries, (·.cacheMaxEntries)⟩

def formatOnOpen : Setting Bool :=
  ⟨Schema.display, "format_on_open", fun _ _ => Schema.asBool, some Config.default.formatOnOpen, (·.formatOnOpen)⟩

def title : Setting Text :=
  ⟨Schema.display, "title", fun _ _ => Schema.asText, Config.default.title, (·.title)⟩

/-- A setting of any type, and the field of a draft that carries it along. -/
structure Carried where
  {type : Type}
  setting : Setting type
  get : Draft → Option type

/-- The ten settings. -/
def all : List Carried :=
  [⟨formatterCmd, Draft.formatterCmd⟩, ⟨formatterArgs, Draft.formatterArgs⟩, ⟨printWidth, Draft.printWidth⟩,
   ⟨timeoutMs, Draft.timeoutMs⟩, ⟨syncFormat, Draft.syncFormat⟩, ⟨searchPaths, Draft.searchPaths⟩,
   ⟨cacheEnabled, Draft.cacheEnabled⟩, ⟨cacheMaxEntries, Draft.cacheMaxEntries⟩,
   ⟨formatOnOpen, Draft.formatOnOpen⟩, ⟨title, Draft.title⟩]

/-! ## The last layer counts -/

theorem effective_concat (f : Setting α) (ls : List (Layer h)) (l : Layer h) :
    f.effective (ls ++ [l]) = (f.value l <|> f.effective ls) := by
  rw [effective, List.reverse_append, List.reverse_singleton, List.singleton_append, List.findSome?_cons, effective]
  cases f.value l <;> rfl

theorem effective_of_unset {f : Setting α} {l : Layer h} (hl : f.value l = none) (before behind : List (Layer h)) :
    f.effective (before ++ l :: behind) = f.effective (before ++ behind) := by
  simp [effective, hl]

theorem isSome_effective (f : Setting α) (hf : f.builtIn.isSome = true) (files : List (FileLayer h)) (o : Overrides) :
    (f.effective (layers files o)).isSome = true := by
  rw [effective, List.findSome?_isSome_iff]
  exact ⟨.builtIn, by simp [layers], hf⟩

/-- A draft carries the field along. -/
structure IsRead (f : Setting α) (get : Draft → Option α) : Prop where
  builtIn : get Draft.default = f.builtIn
  merge : ∀ d e : Draft, get (d.mergeWith e) = (get e <|> get d)
  override : ∀ (d : Draft) (o : Overrides), get (d.override o) = (f.override o <|> get d)
  ofTable : ∀ {e : Environment} {t : Toml.Table} {p : Path} {d : Draft}, Draft.ofTable e t (some p) = .ok d →
    get d = f.ofTable e t p

end Setting

/-! ## What a table sets -/

namespace Schema

variable {t : Toml.Table} {place key : Text} {issues : List Text}

theorem eq_of_field {α : Type} {expected : Text} {read : Toml → Option α} {a : Option α}
    (h : field expected read t place key = .ok (a, issues)) : a = (Toml.get? t key).bind read := by
  unfold field at h
  cases hget : Toml.get? t key with
  | none =>
    rw [hget] at h
    cases h
    rfl
  | some v =>
    rw [hget] at h
    dsimp only at h
    rw [Option.bind_some]
    cases hread : read v with
    | some b =>
      rw [hread] at h
      cases h
      rfl
    | none =>
      rw [hread] at h
      obtain ⟨_, _, h⟩ := map_eq_ok_iff.mp h
      cases h
      rfl

theorem eq_of_textsField {a : Option (List Text)} (h : textsField t place key = .ok (a, issues)) :
    a = (Toml.get? t key).bind fun v => (asItems v).map (·.filterMap asText) := by
  obtain ⟨⟨items, _⟩, hfield, h⟩ := bind_eq_ok_iff.mp h
  have ha : a = items.map (·.filterMap asText) := by
    cases items with
    | none =>
      cases pure_eq_ok_iff.mp h
      rfl
    | some items =>
      obtain ⟨_, _, h⟩ := bind_eq_ok_iff.mp h
      cases pure_eq_ok_iff.mp h
      rfl
  rw [ha, eq_of_field hfield, Option.map_bind]
  rfl

end Schema

theorem Environment.eq_of_resolve {e : Environment} {p q : Path} (h : e.resolve p = .ok q) :
    q = e.directory.resolve p := by
  unfold resolve at h
  split at h
  · cases h
  · exact (Except.ok.inj h).symm

theorem Environment.eq_of_resolveFrom {e : Environment} {base p : Path} {raw : Text}
    (h : e.resolveFrom base raw = .ok p) : p = e.directory.resolve (base.join (.ofText (e.expandHome raw))) := by
  unfold resolveFrom at h
  split at h
  · cases h
  · exact eq_of_resolve h

theorem Environment.eq_of_directories {e : Environment} {source : Option Path} {raw : List Text} {ps : List Path}
    (h : e.directories source raw = .ok ps) : ps = raw.map (e.seen source) := by
  cases source with
  | none => exact mapM_eq_ok (fun _ _ => eq_of_resolveFrom) h
  | some file =>
    obtain ⟨base, hbase, hps⟩ := bind_eq_ok_iff.mp h
    cases eq_of_resolve hbase
    exact mapM_eq_ok (fun _ _ => eq_of_resolveFrom) hps

theorem Environment.eq_of_mapM_directories {e : Environment} {source : Option Path} {raw : Option (List Text)}
    {paths : Option (List Path)} (h : raw.mapM (e.directories source) = .ok paths) :
    paths = raw.map (·.map (e.seen source)) := by
  cases raw with
  | none => exact (pure_eq_ok_iff.mp h).symm
  | some raw =>
    obtain ⟨ps, hps, hsome⟩ := bind_eq_ok_iff.mp h
    rw [← pure_eq_ok_iff.mp hsome, eq_of_directories hps, Option.map_some]

/-- The draft has from a table of a file what each setting has there. -/
structure Draft.IsOf (e : Environment) (t : Toml.Table) (p : Path) (d : Draft) : Prop where
  sources : d.sources = [.file p]
  settings : ∀ f ∈ Setting.all, f.get d = f.setting.ofTable e t p

theorem Draft.isOf_of_ofTable {e : Environment} {t : Toml.Table} {p : Path} {d : Draft}
    (h : Draft.ofTable e t (some p) = .ok d) : d.IsOf e t p := by
  simp only [Draft.ofTable, bind_eq_ok_iff, mapError_eq_ok_iff, pure_eq_ok_iff, Prod.exists] at h
  obtain ⟨_, _, hcmd, _, _, hargs, _, _, hwidth, _, _, htimeout, _, _, hsync, raw, _, hraw, paths, hpaths, _, _,
    henabled, _, _, hentries, _, _, hopen, _, _, htitle, rfl⟩ := h
  have hsearch : paths = Setting.searchPaths.ofTable e t p := by
    rw [Environment.eq_of_mapM_directories hpaths, Schema.eq_of_textsField hraw, Option.map_bind]
    refine congrArg _ (funext fun v => ?_)
    exact Option.map_map ..
  refine ⟨rfl, ?_⟩
  simp only [Setting.all, List.forall_mem_cons]
  exact ⟨Schema.eq_of_field hcmd, Schema.eq_of_textsField hargs, Schema.eq_of_field hwidth,
    Schema.eq_of_field htimeout, Schema.eq_of_field hsync, hsearch, Schema.eq_of_field henabled,
    Schema.eq_of_field hentries, Schema.eq_of_field hopen, Schema.eq_of_field htitle, nofun⟩

/-! ## What a draft carries along -/

/-- The draft of the files one by one on top of the built-in settings. -/
def merged {h : Host} (files : List (FileLayer h)) : Draft :=
  files.foldl (fun d l => d.mergeWith l.draft) Draft.default

theorem merged_concat {h : Host} (files : List (FileLayer h)) (l : FileLayer h) :
    merged (files ++ [l]) = (merged files).mergeWith l.draft := by
  simp [merged]

/-- What takes effect is what the draft of all layers has in the end. -/
theorem Setting.IsRead.effective {α : Type} {h : Host} {f : Setting α} {get : Draft → Option α} (hf : f.IsRead get)
    (files : List (FileLayer h)) (o : Overrides) : get ((merged files).override o) = f.effective (layers files o) := by
  have hfiles : get (merged files) = f.effective (.builtIn :: files.map .file) := by
    -- the last file is the one whose value counts first
    induction files using List.reverseRecOn with
    | nil =>
      have hdefault : get (merged ([] : List (FileLayer h))) = f.builtIn := hf.builtIn
      rw [hdefault, Setting.effective]
      cases hb : f.builtIn <;> simp [Setting.value, hb]
    | append_singleton files l ih =>
      rw [merged_concat, hf.merge, ih, hf.ofTable l.drafted, List.map_append, List.map_singleton, ← List.cons_append,
        Setting.effective_concat]
      rfl
  rw [hf.override, hfiles, layers, Setting.effective_concat]
  rfl

theorem Setting.isRead {f : Carried} (hf : f ∈ all) : f.setting.IsRead f.get := by
  have hlayers : f.get Draft.default = f.setting.builtIn ∧
      (∀ d e : Draft, f.get (d.mergeWith e) = (f.get e <|> f.get d)) ∧
      ∀ (d : Draft) (o : Overrides), f.get (d.override o) = (f.setting.override o <|> f.get d) := by
    simp only [all, List.mem_cons, List.not_mem_nil, or_false] at hf
    rcases hf with rfl | rfl | rfl | rfl | rfl | rfl | rfl | rfl | rfl | rfl <;>
    exact ⟨rfl, fun _ _ => rfl, fun _ _ => rfl⟩
  exact ⟨hlayers.1, hlayers.2.1, hlayers.2.2, fun h => (Draft.isOf_of_ofTable h).settings f hf⟩

/-! ## The end -/

/-- The settings that files and a command line come to. -/
structure Effective {h : Host} (files : List (FileLayer h)) (o : Overrides) (c : Config) : Prop where
  formatterCmd : c.formatterCmd = (Setting.formatterCmd.effective (layers files o)).filter fun t => !t.isEmpty
  formatterArgs : some c.formatterArgs = Setting.formatterArgs.effective (layers files o)
  printWidth : some (c.printWidth : Int) =
    (Setting.printWidth.effective (layers files o)).map (repaired 1 Config.default.printWidth)
  timeoutMs : some (c.timeoutMs : Int) =
    (Setting.timeoutMs.effective (layers files o)).map (repaired 1 Config.default.timeoutMs)
  syncFormat : some c.syncFormat = Setting.syncFormat.effective (layers files o)
  searchPaths : some c.searchPaths = Setting.searchPaths.effective (layers files o)
  cacheEnabled : some c.cacheEnabled = Setting.cacheEnabled.effective (layers files o)
  cacheMaxEntries : some (c.cacheMaxEntries : Int) =
    (Setting.cacheMaxEntries.effective (layers files o)).map (repaired 0 Config.default.cacheMaxEntries)
  formatOnOpen : some c.formatOnOpen = Setting.formatOnOpen.effective (layers files o)
  title : c.title = (Setting.title.effective (layers files o)).filter fun t => !t.isEmpty
  sources : c.sources = files.map (fun l => .file l.path) ++ if o = {} then [] else [.commandLine]
  issues : c.issues = files.flatMap (·.draft.issues) ++
    rangeIssues "print_width" 1 Config.default.printWidth (Setting.printWidth.effective (layers files o)) ++
    rangeIssues "timeout_ms" 1 Config.default.timeoutMs (Setting.timeoutMs.effective (layers files o)) ++
    rangeIssues "max_entries" 0 Config.default.cacheMaxEntries (Setting.cacheMaxEntries.effective (layers files o))

theorem sources_merged {h : Host} (files : List (FileLayer h)) :
    (merged files).sources = files.map fun l => .file l.path := by
  induction files using List.reverseRecOn with
  | nil => rfl
  | append_singleton files l ih =>
    rw [merged_concat, List.map_append, ← ih, Draft.mergeWith, (Draft.isOf_of_ofTable l.drafted).sources]
    rfl

theorem issues_merged {h : Host} (files : List (FileLayer h)) :
    (merged files).issues = files.flatMap (·.draft.issues) := by
  induction files using List.reverseRecOn with
  | nil => rfl
  | append_singleton files l ih =>
    rw [merged_concat, List.flatMap_append, ← ih, Draft.mergeWith, List.flatMap_singleton]

/-- A number that takes effect is out of range and has too many digits to be told. -/
def IsUntellable {h : Host} (files : List (FileLayer h)) (o : Overrides) : Prop :=
  (∃ v, (Setting.printWidth.effective (layers files o)).filter (· < 1) = some v ∧ Numeral.isTooWide v = true) ∨
    (∃ v, (Setting.timeoutMs.effective (layers files o)).filter (· < 1) = some v ∧ Numeral.isTooWide v = true) ∨
    ∃ v, (Setting.cacheMaxEntries.effective (layers files o)).filter (· < 0) = some v ∧ Numeral.isTooWide v = true

section Freeze

variable {h : Host} (files : List (FileLayer h)) (o : Overrides)

theorem freeze_merged_eq_error_iff {e : NumeralError} :
    ((merged files).override o).freeze = .error e ↔ e = .tooWide ∧ IsUntellable files o := by
  have hall (f : Setting.Carried) (hf : f ∈ Setting.all) := (Setting.isRead hf).effective files o
  simp only [Setting.all, List.forall_mem_cons] at hall
  obtain ⟨-, -, hwidth, htimeout, -, -, -, hentries, -⟩ := hall
  rw [Draft.freeze_eq_error_iff, Draft.hasUntellable_iff, hwidth, htimeout, hentries]
  rfl

theorem effective_of_freeze {c : Config} (hfreeze : ((merged files).override o).freeze = .ok c) :
    Effective files o c := by
  have hall (f : Setting.Carried) (hf : f ∈ Setting.all) := (Setting.isRead hf).effective files o
  simp only [Setting.all, List.forall_mem_cons] at hall
  obtain ⟨hcmd, hargs, hwidth, htimeout, hsync, hsearch, henabled, hentries, hopen, htitle, -⟩ := hall
  -- a field with a built-in value has one
  have set {α : Type} {f : Setting α} {v : Option α} (hv : v = f.effective (layers files o))
      (hb : f.builtIn.isSome = true) (a : α) : some (v.getD a) = f.effective (layers files o) := by
    obtain ⟨b, heffective⟩ := Option.isSome_iff_exists.mp (f.isSome_effective hb files o)
    rw [hv, heffective]
    rfl
  have number {f : Setting Int} {v : Option Int} {g : Int → Int} {n m : Nat} (hv : v = f.effective (layers files o))
      (hb : f.builtIn.isSome = true) (hn : (v.map g).getD m = n) :
      some (n : Int) = (f.effective (layers files o)).map g := by
    obtain ⟨b, heffective⟩ := Option.isSome_iff_exists.mp (f.isSome_effective hb files o)
    rw [hv, heffective] at hn
    rw [heffective, ← hn]
    rfl
  simp only [Draft.freeze, bind_eq_ok_iff, pure_eq_ok_iff, Prod.exists] at hfreeze
  obtain ⟨width, i, hi, timeout, j, hj, entries, k, hk, rfl⟩ := hfreeze
  obtain ⟨-, hn, rfl⟩ := (Draft.inRange_eq_ok_iff (by decide)).mp hi
  obtain ⟨-, hm, rfl⟩ := (Draft.inRange_eq_ok_iff (by decide)).mp hj
  obtain ⟨-, hl, rfl⟩ := (Draft.inRange_eq_ok_iff (by decide)).mp hk
  exact {
    formatterCmd := congrArg (Option.filter fun t => !List.isEmpty t) hcmd
    formatterArgs := set hargs rfl _
    printWidth := number hwidth rfl hn
    timeoutMs := number htimeout rfl hm
    syncFormat := set hsync rfl _
    searchPaths := set hsearch rfl _
    cacheEnabled := set henabled rfl _
    cacheMaxEntries := number hentries rfl hl
    formatOnOpen := set hopen rfl _
    title := congrArg (Option.filter fun t => !List.isEmpty t) htitle
    sources := by
      rw [← sources_merged]
      unfold Draft.override
      dsimp only
      split <;> simp
    issues := by
      rw [hwidth, htimeout, hentries, ← issues_merged]
      rfl }

end Freeze

/-! ## The files -/

/-- The layers that files give one by one. A shared file without a section for these settings gives none. -/
inductive Merges (h : Host) : List Path → List (FileLayer h) → Prop
  | nil : Merges h [] []
  | skip {p : Path} {paths : List Path} {files : List (FileLayer h)} {content : Toml.Table} :
      h.readTable p = .ok content → Host.settingsOf p content = none → Merges h paths files →
      Merges h (p :: paths) files
  | layer {l : FileLayer h} {paths : List Path} {files : List (FileLayer h)} :
      Merges h paths files → Merges h (l.path :: paths) (l :: files)

theorem Merges.append {h : Host} {ps qs : List Path} {fs gs : List (FileLayer h)} (hf : Merges h ps fs)
    (hg : Merges h qs gs) : Merges h (ps ++ qs) (fs ++ gs) := by
  induction hf with
  | nil => exact hg
  | skip hread hnone _ ih => exact .skip hread hnone ih
  | layer _ ih => exact .layer ih

namespace Host

variable {h : Host}

theorem addFile_cases {d d' : Draft} {p : Path} (hadd : h.addFile d p = .ok d') :
    (∃ content, h.readTable p = .ok content ∧ settingsOf p content = none ∧ d' = d) ∨
      ∃ l : FileLayer h, l.path = p ∧ d' = d.mergeWith l.draft := by
  obtain ⟨found, hfound, hadd⟩ := bind_eq_ok_iff.mp hadd
  obtain ⟨content, hread, hfound⟩ := bind_eq_ok_iff.mp hfound
  cases hset : settingsOf p content with
  | none =>
    rw [hset] at hfound
    cases pure_eq_ok_iff.mp hfound
    exact .inl ⟨content, hread, hset, (pure_eq_ok_iff.mp hadd).symm⟩
  | some table =>
    rw [hset] at hfound
    obtain ⟨draft, hdraft, hfound⟩ := bind_eq_ok_iff.mp hfound
    cases pure_eq_ok_iff.mp hfound
    have hdrafted := mapError_eq_ok_iff.mp hdraft
    exact .inr ⟨⟨p, table, draft, ⟨content, hread, hset⟩, hdrafted⟩, rfl, (pure_eq_ok_iff.mp hadd).symm⟩

theorem merges_of_gather {paths : List Path} {d d' : Draft} (hgather : h.gather d paths = (d', none)) :
    ∃ files : List (FileLayer h), Merges h paths files ∧ d' = files.foldl (fun d l => d.mergeWith l.draft) d := by
  induction paths generalizing d with
  | nil => exact ⟨[], .nil, (congrArg Prod.fst hgather).symm⟩
  | cons p paths ih =>
    rw [gather] at hgather
    split at hgather
    · rename_i e hadd
      obtain ⟨files, hfiles, rfl⟩ := ih hgather
      rcases addFile_cases hadd with ⟨content, hread, hnone, rfl⟩ | ⟨l, rfl, rfl⟩
      · exact ⟨files, .skip hread hnone hfiles, rfl⟩
      · exact ⟨l :: files, .layer hfiles, rfl⟩
    · cases hgather

/-- The user's file and the files of the project that a path is in: the latter go from the outermost directory inwards,
and are in the directories around the start. -/
structure Finds (h : Host) (anchor : Path) (user : Option Path) (project : List Path) : Prop where
  own : h.userFile? = .ok user
  discovered : h.discover anchor = .ok project
  around : ∃ start, h.searchStart anchor = .ok start ∧ ∀ p ∈ project, p.parent.parts <+: start.parts
  inwards : project.Pairwise fun p q => p.parent.parts <+: q.parent.parts

theorem parent_of_mem_localFiles {directory : Path} {found : List Path} {isRoot : Bool}
    (hlocal : h.localFiles directory = .ok (found, isRoot)) : ∀ p ∈ found, p.parent.parts = directory.parts := by
  have child {name : Text} {r : Option (Path × Bool)} (hfile : h.localFile directory name = .ok r) :
      ∀ q ∈ r.toList, q.1.parent.parts = directory.parts := by
    have hchild : (directory.child name).parent.parts = directory.parts := List.dropLast_concat
    obtain ⟨stands, _, hfile⟩ := bind_eq_ok_iff.mp hfile
    cases stands with
    | false =>
      cases pure_eq_ok_iff.mp hfile
      exact nofun
    | true =>
      obtain ⟨content, _, hfile⟩ := bind_eq_ok_iff.mp hfile
      split at hfile
      · cases pure_eq_ok_iff.mp hfile
        exact nofun
      · cases pure_eq_ok_iff.mp hfile
        intro q hq
        cases List.mem_singleton.mp hq
        exact hchild
  obtain ⟨shared, hshared, hlocal⟩ := bind_eq_ok_iff.mp hlocal
  obtain ⟨own, hown, hlocal⟩ := bind_eq_ok_iff.mp hlocal
  cases pure_eq_ok_iff.mp hlocal
  intro p hp
  obtain ⟨q, hq, rfl⟩ := List.mem_map.mp hp
  rcases List.mem_append.mp hq with hq | hq
  · exact child hshared q hq
  · exact child hown q hq

/-- The walk goes up from a directory, and what it finds goes inwards. -/
theorem inwards_of_walkUp {n : Nat} {directory : Path} {found : List Path} (hwalk : h.walkUp directory n = .ok found) :
    (∀ p ∈ found, p.parent.parts <+: directory.parts) ∧
      found.Pairwise fun p q => p.parent.parts <+: q.parent.parts := by
  have same {directory : Path} {found : List Path} (hparent : ∀ p ∈ found, p.parent.parts = directory.parts) :
      (∀ p ∈ found, p.parent.parts <+: directory.parts) ∧
        found.Pairwise fun p q => p.parent.parts <+: q.parent.parts := by
    refine ⟨fun p hp => hparent p hp ▸ List.prefix_rfl, List.pairwise_of_forall_mem_list fun p hp q hq => ?_⟩
    rw [hparent p hp, hparent q hq]
  induction n generalizing directory found with
  | zero =>
    obtain ⟨⟨here, isRoot⟩, hhere, rfl⟩ := map_eq_ok_iff.mp hwalk
    exact same (parent_of_mem_localFiles hhere)
  | succ n ih =>
    obtain ⟨⟨here, isRoot⟩, hhere, hwalk⟩ := bind_eq_ok_iff.mp hwalk
    have hparent := parent_of_mem_localFiles hhere
    cases isRoot with
    | true =>
      cases pure_eq_ok_iff.mp hwalk
      exact same hparent
    | false =>
      obtain ⟨above, habove, hwalk⟩ := bind_eq_ok_iff.mp hwalk
      cases pure_eq_ok_iff.mp hwalk
      obtain ⟨haround, hinwards⟩ := ih habove
      have hup (p : Path) (hp : p ∈ above) : p.parent.parts <+: directory.parts :=
        (haround p hp).trans (List.dropLast_prefix _)
      refine ⟨fun p hp => (List.mem_append.mp hp).elim (hup p) ((same hparent).1 p), ?_⟩
      exact List.pairwise_append.mpr ⟨hinwards, (same hparent).2, fun p hp q hq => hparent q hq ▸ hup p hp⟩

theorem finds_of_discover {anchor : Path} {user : Option Path} {project : List Path} (huser : h.userFile? = .ok user)
    (hproject : h.discover anchor = .ok project) : h.Finds anchor user project := by
  obtain ⟨start, hstart, hwalk⟩ := bind_eq_ok_iff.mp hproject
  obtain ⟨haround, hinwards⟩ := inwards_of_walkUp hwalk
  exact ⟨huser, hproject, ⟨start, hstart, haround⟩, hinwards⟩

/-- What is gathered without an error is the draft of the layers that the files give. -/
theorem merges_of_loadMerged {anchor : Path} {named : List Path} {noFiles : Bool} {d : Draft}
    (hload : h.loadMerged anchor named noFiles = .ok d) : ∃ user project files,
      (noFiles = true → user = none ∧ project = []) ∧ (noFiles = false → h.Finds anchor user project) ∧
      Merges h (user.toList ++ project ++ named) files ∧ d = merged files := by
  have hlayers : h.gatherLayers anchor named noFiles = (d, none) := by
    unfold loadMerged at hload
    split at hload
    · rename_i hlayers
      rw [hlayers, Except.ok.inj hload]
    · cases hload
  unfold gatherLayers at hlayers
  cases noFiles with
  | true =>
    obtain ⟨files, hfiles, rfl⟩ := merges_of_gather hlayers
    exact ⟨none, [], files, fun _ => ⟨rfl, rfl⟩, nofun, hfiles, rfl⟩
  | false =>
    simp only [Bool.false_eq_true, if_false] at hlayers
    split at hlayers
    · cases hlayers
    rename_i found hfound
    obtain ⟨files, hfiles, rfl⟩ := merges_of_gather hlayers
    unfold gatherFound at hfound
    split at hfound
    · cases hfound
    rename_i user huser
    split at hfound
    · cases hfound
    rename_i own hown
    split at hfound
    · cases hfound
    rename_i project hproject
    obtain ⟨ownFiles, hownFiles, rfl⟩ := merges_of_gather hown
    obtain ⟨projectFiles, hprojectFiles, rfl⟩ := merges_of_gather hfound
    refine ⟨user, project, ownFiles ++ projectFiles ++ files, nofun, fun _ => finds_of_discover huser hproject,
      (hownFiles.append hprojectFiles).append hfiles, ?_⟩
    simp only [merged, List.foldl_append]

/-- Which settings take effect where they can be had: each field has the value of the last layer that sets one of the
right type, and a value of another type hides nothing. Only a number out of range with too many digits keeps them from
being finished. -/
theorem effective_settings {anchor : Path} {named : List Path} {noFiles : Bool} {d : Draft}
    (hload : h.loadMerged anchor named noFiles = .ok d) (o : Overrides) : ∃ user project files,
      (noFiles = true → user = none ∧ project = []) ∧ (noFiles = false → h.Finds anchor user project) ∧
      Merges h (user.toList ++ project ++ named) files ∧
      (∀ c, (d.override o).freeze = .ok c → Effective files o c) ∧
      (∀ e, (d.override o).freeze = .error e ↔ e = .tooWide ∧ IsUntellable files o) ∧
      ∀ (α : Type) (f : Setting α) (before behind : List (Layer h)) (l : FileLayer h) (v : Toml),
        Toml.get? (Toml.subtable l.table f.place.name) f.key = some v → f.read h.environment l.path v = none →
        f.effective (before ++ .file l :: behind) = f.effective (before ++ behind) := by
  obtain ⟨user, project, files, hnone, hfinds, hmerges, rfl⟩ := merges_of_loadMerged hload
  refine ⟨user, project, files, hnone, hfinds, hmerges, fun _ => effective_of_freeze files o,
    fun _ => freeze_merged_eq_error_iff files o, ?_⟩
  intro α f before behind l v hget hread
  refine Setting.effective_of_unset ?_ before behind
  rw [Setting.value, Setting.ofTable, hget, Option.bind_some, hread]

/-- A width of another type hides nothing, a deadline out of range becomes the built-in one, and an empty title is
none. -/
theorem wrong_width_hides_nothing :
    let file (t : Text) : FileNode := .file (Utf8.encode t) false
    let h : Host := {
      environment := { bindings := [("HOME", "/home/u")], directory := .ofText "/work/app" }
      files := { nodes := [
        (["home", "u", ".tserrors.toml"],
          file "[formatter]\nprint_width = 80\ntimeout_ms = 500\n[display]\ntitle = 'TS'\n"),
        (["work", "pyproject.toml"], file "[tool.tserrors.formatter]\nprint_width = []\ntimeout_ms = 0\n"),
        (["work", "app", "tserrors.toml"], file "[formatter]\nsearch_paths = ['bin', '~/bin']\n")] } }
    let o : Overrides := { title := some "" }
    let c : Config := { Config.default with
      sources := [.file (.ofText "/home/u/.tserrors.toml"), .file (.ofText "/work/pyproject.toml"),
        .file (.ofText "/work/app/tserrors.toml"), .commandLine]
      printWidth := 80
      searchPaths := [.ofText "/work/app/bin", .ofText "/home/u/bin"]
      issues := ["Expected int in [formatter].print_width, got list: []", "Invalid timeout_ms=0; using default 3000"] }
    ∃ d, h.loadMerged (.ofText "/work/app") [] false = .ok d ∧ (d.override o).freeze = .ok c ∧
      ∃ user project files, h.Finds (.ofText "/work/app") user project ∧ Merges h (user.toList ++ project) files ∧
        Effective files o c := by
  intro file h o c
  have hfrozen : (h.loadMerged (.ofText "/work/app") [] false).toOption.bind (fun d => (d.override o).freeze.toOption)
      = some c := by
    decide +kernel
  obtain ⟨d, hd, hc⟩ := Option.bind_eq_some_iff.mp hfrozen
  have hload := toOption_eq_some_iff.mp hd
  have hfreeze := toOption_eq_some_iff.mp hc
  obtain ⟨user, project, files, _, hfinds, hmerges, heffective, _⟩ := effective_settings hload o
  rw [List.append_nil] at hmerges
  exact ⟨d, hload, hfreeze, user, project, files, hfinds rfl, hmerges, heffective c hfreeze⟩

end Host

end Legible
