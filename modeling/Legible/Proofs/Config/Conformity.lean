import Legible.Proofs.Config.Schema
/-!
# What the issues of a table say

The issues of a table tell of each key that is not known, of each value of a section that is not of the type its key
asks for, and of each item that is no text where texts are. The values of the table itself are not checked: any may
stand for `root`, and a section that is no table counts as an empty one. So a table without issues conforms to the
schema if these values are right (`Draft.issues_pass_over_top_values`). Each field of the draft is set if its key has a
value of the right type, whatever else the table holds (`Draft.keeps_of_ofTable`), and of an array it has the texts in
their order.
-/

namespace Legible

namespace Schema

variable {t : Toml.Table} {place key : Text}

/-! ## Tables that conform -/

/-- The sections of a table of settings. -/
def sections : List SectionKeys := [formatter, cache, display]

/-- The value that a section has for a key. -/
def value? (t : Toml.Table) (s : SectionKeys) (key : Text) : Option Toml := Toml.get? (Toml.subtable t s.name) key

/-- The values of a kind. -/
def Kind.Fits : Kind → Toml → Prop
  | .text, v => ∃ c, v = .str c
  | .truth, v => ∃ b, v = .bool b
  | .number, v => ∃ n, v = .int n
  | .texts, v => ∃ ts : List Text, v = .arr (ts.map .str)

/-- What the issues tell of: all keys are known, and those of the sections have values of their kinds. A section that is
no table has no keys. -/
structure Passes (t : Toml.Table) : Prop where
  top : ∀ entry ∈ t, entry.1 ∈ topKeys
  known : ∀ s ∈ sections, ∀ entry ∈ Toml.subtable t s.name, entry.1 ∈ s.keys
  typed : ∀ k ∈ keys, ∀ v, value? t k.place k.name = some v → k.kind.Fits v

/-- What the issues leave out: `root` is a truth value, and the sections are tables. -/
structure IsShaped (t : Toml.Table) : Prop where
  root : ∀ v, Toml.get? t rootKey = some v → ∃ b, v = .bool b
  tables : ∀ s ∈ sections, ∀ v, Toml.get? t s.name = some v → ∃ pairs, v = .table pairs

/-- The table is as the schema has it. -/
structure Conforms (t : Toml.Table) : Prop extends Passes t, IsShaped t

/-! ## Values of the right type -/

@[simp]
theorem asText_eq_some_iff {v : Toml} {c : Text} : asText v = some c ↔ v = .str c := by
  cases v <;> simp [asText]

@[simp]
theorem asBool_eq_some_iff {v : Toml} {b : Bool} : asBool v = some b ↔ v = .bool b := by
  cases v <;> simp [asBool]

@[simp]
theorem asInt_eq_some_iff {v : Toml} {n : Int} : asInt v = some n ↔ v = .int n := by
  cases v <;> simp [asInt]

@[simp]
theorem asItems_eq_some_iff {v : Toml} {items : List Toml} : asItems v = some items ↔ v = .arr items := by
  cases v <;> simp [asItems]

theorem forall_isSome_asText_iff {items : List Toml} :
    (∀ v ∈ items, (asText v).isSome = true) ↔ ∃ ts : List Text, items = ts.map .str := by
  induction items with
  | nil => exact iff_of_true nofun ⟨[], rfl⟩
  | cons v items ih =>
    rw [List.forall_mem_cons, ih]
    constructor
    · rintro ⟨hv, ts, rfl⟩
      obtain ⟨c, hc⟩ := Option.isSome_iff_exists.mp hv
      exact ⟨c :: ts, by rw [asText_eq_some_iff.mp hc, List.map_cons]⟩
    · rintro ⟨ts, hts⟩
      cases ts with
      | nil => cases hts
      | cons c ts =>
        obtain ⟨rfl, rfl⟩ := List.cons.inj hts
        exact ⟨rfl, ts, rfl⟩

theorem isSome_asText_iff {v : Toml} : (asText v).isSome = true ↔ Kind.text.Fits v := by
  simp only [Option.isSome_iff_exists, asText_eq_some_iff, Kind.Fits]

theorem isSome_asBool_iff {v : Toml} : (asBool v).isSome = true ↔ Kind.truth.Fits v := by
  simp only [Option.isSome_iff_exists, asBool_eq_some_iff, Kind.Fits]

theorem isSome_asInt_iff {v : Toml} : (asInt v).isSome = true ↔ Kind.number.Fits v := by
  simp only [Option.isSome_iff_exists, asInt_eq_some_iff, Kind.Fits]

/-- Nothing is refused of a value of the right kind. -/
theorem Kind.refused_eq_nil_iff {k : Kind} {v : Toml} : k.refused v = [] ↔ k.Fits v := by
  have hone (b : Bool) : (if b then [] else [v]) = [] ↔ b = true := by cases b <;> simp
  cases k with
  | text => exact (hone _).trans isSome_asText_iff
  | truth => exact (hone _).trans isSome_asBool_iff
  | number => exact (hone _).trans isSome_asInt_iff
  | texts =>
    cases v with
    | arr items =>
      have hitems : refused .texts (.arr items) = items.filter fun v => (asText v).isNone := rfl
      simp only [hitems, Fits, Toml.arr.injEq, ← forall_isSome_asText_iff, List.filter_eq_nil_iff]
      exact forall₂_congr fun w _ => by cases asText w <;> simp
    | _ => simp [refused, Fits, asItems]

/-! ## Issues -/

theorem unknownKeys_eq_nil_iff {source : Option Path} : unknownKeys t source = [] ↔
    (∀ entry ∈ t, entry.1 ∈ topKeys) ∧ ∀ s ∈ sections, ∀ entry ∈ Toml.subtable t s.name, entry.1 ∈ s.keys := by
  simp [unknownKeys, unknownIn, sections]

variable {issues : List Text}

/-- Something is said of a value just if it is of another type. -/
theorem issues_of_field {α : Type} {expected : Text} {read : Toml → Option α} {a : Option α}
    (h : field expected read t place key = .ok (a, issues)) :
    issues = [] ↔ ∀ v, Toml.get? t key = some v → (read v).isSome = true := by
  unfold field at h
  cases hget : Toml.get? t key with
  | none =>
    rw [hget] at h
    cases h
    simp
  | some v =>
    rw [hget] at h
    cases hread : read v with
    | some b =>
      simp only [hread] at h
      cases h
      simp [hread]
    | none =>
      simp only [hread] at h
      obtain ⟨issue, -, h⟩ := map_eq_ok_iff.mp h
      cases h
      simp [hread]

/-- What comes of a key that asks for a text. -/
theorem textField_spec {a : Option Text} (h : textField t place key = .ok (a, issues)) :
    (∀ c, a = some c ↔ Toml.get? t key = some (.str c)) ∧
      (issues = [] ↔ ∀ v, Toml.get? t key = some v → Kind.text.Fits v) := by
  constructor
  · intro c
    simp [eq_of_field h, Option.bind_eq_some_iff]
  · simp only [issues_of_field h, isSome_asText_iff]

/-- What comes of a key that asks for a truth value. -/
theorem boolField_spec {a : Option Bool} (h : boolField t place key = .ok (a, issues)) :
    (∀ b, a = some b ↔ Toml.get? t key = some (.bool b)) ∧
      (issues = [] ↔ ∀ v, Toml.get? t key = some v → Kind.truth.Fits v) := by
  constructor
  · intro b
    simp only [eq_of_field h, Option.bind_eq_some_iff, asBool_eq_some_iff, exists_eq_right]
  · simp only [issues_of_field h, isSome_asBool_iff]

/-- What comes of a key that asks for a whole number. -/
theorem intField_spec {a : Option Int} (h : intField t place key = .ok (a, issues)) :
    (∀ n, a = some n ↔ Toml.get? t key = some (.int n)) ∧
      (issues = [] ↔ ∀ v, Toml.get? t key = some v → Kind.number.Fits v) := by
  constructor
  · intro n
    simp [eq_of_field h, Option.bind_eq_some_iff]
  · simp only [issues_of_field h, isSome_asInt_iff]

theorem nil_iff_of_mapM {ε α β : Type} {f : α → Except ε β} {as : List α} {bs : List β} (h : as.mapM f = .ok bs) :
    bs = [] ↔ as = [] := by
  cases as with
  | nil => exact iff_of_true (pure_eq_ok_iff.mp h).symm rfl
  | cons a as =>
    simp only [List.mapM_cons, bind_eq_ok_iff, pure_eq_ok_iff] at h
    obtain ⟨b, -, rest, -, rfl⟩ := h
    simp

theorem issues_of_textsField {a : Option (List Text)} (h : textsField t place key = .ok (a, issues)) :
    issues = [] ↔ ∀ v, Toml.get? t key = some v → Kind.texts.Fits v := by
  obtain ⟨⟨items, told⟩, hfield, h⟩ := bind_eq_ok_iff.mp h
  have hitems := eq_of_field hfield
  have htold := issues_of_field hfield
  cases items with
  | none =>
    cases pure_eq_ok_iff.mp h
    rw [htold]
    refine forall₂_congr fun v hv => ?_
    rw [hv, Option.bind_some] at hitems
    have hother : ¬ Kind.texts.Fits v := by
      rintro ⟨ts, rfl⟩
      cases hitems
    simp [← hitems, hother]
  | some items =>
    obtain ⟨others, hothers, h⟩ := bind_eq_ok_iff.mp h
    cases pure_eq_ok_iff.mp h
    obtain ⟨v, hv, hv'⟩ := Option.bind_eq_some_iff.mp hitems.symm
    cases asItems_eq_some_iff.mp hv'
    have hnothing : told = [] := htold.mpr fun w hw => by
      cases hv.symm.trans hw
      rfl
    have hrefused : others = [] ↔ Kind.texts.refused (.arr items) = [] := nil_iff_of_mapM hothers
    simp only [hnothing, List.nil_append, hrefused, hv, Option.some.injEq, forall_eq', Kind.refused_eq_nil_iff]

/-- What comes of a key that asks for texts: those of an array, in their order. -/
theorem textsField_spec {a : Option (List Text)} (h : textsField t place key = .ok (a, issues)) :
    (∀ ts, a = some ts ↔ ∃ items, Toml.get? t key = some (.arr items) ∧ items.filterMap asText = ts) ∧
      (issues = [] ↔ ∀ v, Toml.get? t key = some v → Kind.texts.Fits v) := by
  constructor
  · intro ts
    simp [eq_of_textsField h, Option.bind_eq_some_iff]
  · exact issues_of_textsField h

end Schema

/-! ## Drafts -/

namespace Draft

open Schema

/-- Each field has the value of its key, if that is of the right type; of an array it has the texts. -/
structure Keeps (e : Environment) (t : Toml.Table) (source : Option Path) (d : Draft) : Prop where
  sources : d.sources = (source.map ConfigSource.file).toList
  formatterCmd : ∀ c, d.formatterCmd = some c ↔ value? t formatter "cmd" = some (.str c)
  formatterArgs : ∀ ts, d.formatterArgs = some ts ↔
    ∃ items, value? t formatter "args" = some (.arr items) ∧ items.filterMap asText = ts
  printWidth : ∀ n, d.printWidth = some n ↔ value? t formatter "print_width" = some (.int n)
  timeoutMs : ∀ n, d.timeoutMs = some n ↔ value? t formatter "timeout_ms" = some (.int n)
  syncFormat : ∀ b, d.syncFormat = some b ↔ value? t formatter "sync_format" = some (.bool b)
  searchPaths : ∀ ps, d.searchPaths = some ps ↔
    ∃ items, value? t formatter "search_paths" = some (.arr items) ∧ (items.filterMap asText).map (e.seen source) = ps
  cacheEnabled : ∀ b, d.cacheEnabled = some b ↔ value? t cache "enabled" = some (.bool b)
  cacheMaxEntries : ∀ n, d.cacheMaxEntries = some n ↔ value? t cache "max_entries" = some (.int n)
  formatOnOpen : ∀ b, d.formatOnOpen = some b ↔ value? t display "format_on_open" = some (.bool b)
  title : ∀ c, d.title = some c ↔ value? t display "title" = some (.str c)

variable {e : Environment} {t : Toml.Table} {source : Option Path} {d : Draft}

/-- A draft keeps what its table has of the right type, and has no issues if the table passes the checks. -/
theorem keeps_of_ofTable (h : Draft.ofTable e t source = .ok d) :
    d.Keeps e t source ∧ (d.issues = [] ↔ Passes t) := by
  simp only [Draft.ofTable, bind_eq_ok_iff, mapError_eq_ok_iff, pure_eq_ok_iff, Prod.exists] at h
  obtain ⟨_, _, hcmd, _, _, hargs, _, _, hwidth, _, _, htimeout, _, _, hsync, raw, _, hraw, paths, hpaths, _, _,
    henabled, _, _, hentries, _, _, hopen, _, _, htitle, rfl⟩ := h
  have hcmd := textField_spec hcmd
  have hargs := textsField_spec hargs
  have hwidth := intField_spec hwidth
  have htimeout := intField_spec htimeout
  have hsync := boolField_spec hsync
  have hraw := textsField_spec hraw
  have henabled := boolField_spec henabled
  have hentries := intField_spec hentries
  have hopen := boolField_spec hopen
  have htitle := textField_spec htitle
  have hsearch (ps : List Path) : paths = some ps ↔ ∃ items, value? t formatter "search_paths" = some (.arr items) ∧
      (items.filterMap asText).map (e.seen source) = ps := by
    rw [Environment.eq_of_mapM_directories hpaths, Option.map_eq_some_iff]
    constructor
    · rintro ⟨ts, hts, rfl⟩
      obtain ⟨items, hitems, rfl⟩ := (hraw.1 ts).mp hts
      exact ⟨items, hitems, rfl⟩
    · rintro ⟨items, hitems, rfl⟩
      exact ⟨_, (hraw.1 _).mpr ⟨items, hitems, rfl⟩, rfl⟩
  constructor
  · exact ⟨rfl, hcmd.1, hargs.1, hwidth.1, htimeout.1, hsync.1, hsearch, henabled.1, hentries.1, hopen.1, htitle.1⟩
  · have hpasses : Passes t ↔
        unknownKeys t source = [] ∧ ∀ k ∈ keys, ∀ v, value? t k.place k.name = some v → k.kind.Fits v := by
      rw [unknownKeys_eq_nil_iff]
      exact ⟨fun h => ⟨⟨h.top, h.known⟩, h.typed⟩, fun h => ⟨h.1.1, h.1.2, h.2⟩⟩
    simp only [hpasses, keys, List.forall_mem_cons, List.not_mem_nil, IsEmpty.forall_iff, implies_true, and_true,
      value?, List.append_eq_nil_iff, and_assoc, hcmd.2, hargs.2, hwidth.2, htimeout.2, hsync.2, hraw.2, henabled.2,
      hentries.2, hopen.2, htitle.2]

end Draft

/-- Nothing is refused of a table that conforms, so that only its paths may stand in the way. -/
theorem Schema.Conforms.admits_iff {t : Toml.Table} (ht : Conforms t) :
    Admits t ↔ ∀ raw ∈ rawPaths t, raw.IsNamable := by
  have hnothing : ∀ k ∈ keys, k.refused t = [] := by
    intro k hk
    rw [Key.refused, List.flatMap_eq_nil_iff]
    intro v hv
    exact Kind.refused_eq_nil_iff.mpr (ht.typed k hk v (Option.mem_toList.mp hv))
  constructor
  · exact Admits.named
  · intro hnamed
    refine ⟨fun k hk v hv => ?_, hnamed⟩
    rw [hnothing k hk] at hv
    exact absurd hv List.not_mem_nil

namespace Draft

open Schema

/-- What the settings of a table say of it: they can be had if no path in it can name no file. There are no issues just if
all keys are known and those of the sections have values of their kinds, so a table without issues conforms if `root` is
a truth value and the sections are tables. In any case each field is set just if its key has a value of the right type. -/
theorem issues_pass_over_top_values {e : Environment} (he : e.IsSound) {source : Option Path}
    (hsource : ∀ p ∈ source, p.IsNamable) (t : Toml.Table) :
    ((∃ d, Draft.ofTable e t source = .ok d) ↔ Admits t) ∧
      (Conforms t → (Admits t ↔ ∀ raw ∈ rawPaths t, raw.IsNamable)) ∧
      ∀ d, Draft.ofTable e t source = .ok d →
        (d.issues = [] ↔ Passes t) ∧ (Conforms t ↔ d.issues = [] ∧ IsShaped t) ∧ d.Keeps e t source := by
  refine ⟨Draft.ofTable_isOk_iff he hsource, Conforms.admits_iff, ?_⟩
  intro d hd
  obtain ⟨hkeeps, hissues⟩ := keeps_of_ofTable hd
  refine ⟨hissues, ?_, hkeeps⟩
  rw [hissues]
  exact ⟨fun h => ⟨h.toPasses, h.toIsShaped⟩, fun h => ⟨h.1, h.2⟩⟩

/-- A number stands for a section and a text for `root`, and nothing is said of either; the other section is read as
ever. With a truth value and a table in these places the table conforms. -/
theorem number_for_section_is_no_issue :
    let e : Environment := { bindings := [("HOME", "/home/u")], directory := .ofText "/work/app" }
    let file : Path := .ofText "/work/tserrors.toml"
    let cache : Text × Toml := ("cache", .table [("enabled", .bool false)])
    let wrong : Toml.Table := [("root", .str "yes"), ("formatter", .int 5), cache]
    let right : Toml.Table := [("root", .bool true), ("formatter", .table [("search_paths", .arr [.str "bin"])]), cache]
    let draft : Draft := { sources := [.file file], cacheEnabled := some false }
    e.IsSound ∧ file.IsNamable ∧
      Draft.ofTable e wrong (some file) = .ok draft ∧ ¬ Conforms wrong ∧
      Draft.ofTable e right (some file) = .ok { draft with searchPaths := some [.ofText "/work/bin"] } ∧
      Conforms right ∧ Admits right := by
  intro e file cache wrong right draft
  have he : e.IsSound := ⟨by decide +kernel, by decide +kernel, by decide +kernel, by decide +kernel⟩
  have hfile : ∀ p ∈ some file, p.IsNamable := by decide +kernel
  obtain ⟨-, -, hofWrong⟩ := issues_pass_over_top_values he hfile wrong
  obtain ⟨-, hpaths, hofRight⟩ := issues_pass_over_top_values he hfile right
  have hwrong : Draft.ofTable e wrong (some file) = .ok draft := by decide +kernel
  have hright : Draft.ofTable e right (some file) = .ok { draft with searchPaths := some [.ofText "/work/bin"] } := by
    decide +kernel
  have hshaped : IsShaped right := by
    constructor
    · intro v hv
      cases hv
      exact ⟨true, rfl⟩
    · simp only [sections, List.forall_mem_cons, List.not_mem_nil, IsEmpty.forall_iff, implies_true, and_true]
      refine ⟨?_, ?_, ?_⟩ <;>
        intro v hv <;> cases hv <;> exact ⟨_, rfl⟩
  have hconforms : Conforms right := (hofRight _ hright).2.1.mpr ⟨rfl, hshaped⟩
  refine ⟨he, hfile file rfl, hwrong, fun h => ?_, hright, hconforms, (hpaths hconforms).mpr (by decide +kernel)⟩
  obtain ⟨-, hshape⟩ := (hofWrong _ hwrong).2.1.mp h
  obtain ⟨b, hb⟩ := hshape.root _ rfl
  cases hb

end Draft

end Legible
