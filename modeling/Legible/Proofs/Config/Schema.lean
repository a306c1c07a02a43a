import Legible.Proofs.Files.Path
/-!
# Which tables have settings

A value of another type than its key asks for is told of and left out, and so are items of an array. That goes wrong
only where the value cannot be shown; and a path goes wrong where it can name no file. All other tables have settings
(`Draft.ofTable_isOk_iff`).
-/

namespace Legible

namespace Schema

/-- What a key of settings holds. -/
inductive Kind where
  | text
  | truth
  | number
  | texts

/-- The values that are refused where a value stands for one of a kind: the value itself, or items of an array. -/
def Kind.refused : Kind → Toml → List Toml
  | .text, v => if (asText v).isSome then [] else [v]
  | .truth, v => if (asBool v).isSome then [] else [v]
  | .number, v => if (asInt v).isSome then [] else [v]
  | .texts, v => match asItems v with
    | some items => items.filter fun w => (asText w).isNone
    | none => [v]

/-- A key of settings: its section and what it holds. -/
structure Key where
  place : SectionKeys
  name : Text
  kind : Kind

/-- The keys of settings. -/
def keys : List Key :=
  [⟨formatter, "cmd", .text⟩, ⟨formatter, "args", .texts⟩, ⟨formatter, "print_width", .number⟩,
   ⟨formatter, "timeout_ms", .number⟩, ⟨formatter, "sync_format", .truth⟩, ⟨formatter, "search_paths", .texts⟩,
   ⟨cache, "enabled", .truth⟩, ⟨cache, "max_entries", .number⟩, ⟨display, "format_on_open", .truth⟩,
   ⟨display, "title", .text⟩]

/-- The values that a table has for a key and that are refused. -/
def Key.refused (k : Key) (t : Toml.Table) : List Toml :=
  (Toml.get? (Toml.subtable t k.place.name) k.name).toList.flatMap k.kind.refused

/-- The paths that a table has. -/
def rawPaths (t : Toml.Table) : List Text :=
  (((Toml.get? (Toml.subtable t formatter.name) "search_paths").bind asItems).getD []).filterMap asText

/-- Nothing in the table stands in the way of its settings: what is refused can be shown, and the paths may be those of
files. -/
structure Admits (t : Toml.Table) : Prop where
  shown : ∀ k ∈ keys, ∀ v ∈ k.refused t, v.hasTooWide = false
  named : ∀ raw ∈ rawPaths t, raw.IsNamable

theorem admits_nil : Admits [] where
  shown := fun _ _ _ hv => absurd hv List.not_mem_nil
  named := fun _ hraw => absurd hraw List.not_mem_nil

/-! ## Single keys -/

variable {t : Toml.Table} {place key : Text}

theorem exists_typeIssue_iff {expected : Text} {v : Toml} :
    (∃ issue, typeIssue expected place v = .ok issue) ↔ v.hasTooWide = false := by
  cases hwide : v.hasTooWide <;> simp [typeIssue, showValue, hwide, Except.map]

theorem exists_itemIssue_iff {v : Toml} : (∃ issue, itemIssue place v = .ok issue) ↔ v.hasTooWide = false := by
  cases hwide : v.hasTooWide <;> simp [itemIssue, showValue, hwide, Except.map]

/-- A value of the right type needs not be shown. -/
theorem exists_field_iff {α : Type} {expected : Text} {read : Toml → Option α} :
    (∃ r, field expected read t place key = .ok r) ↔
      ∀ v, Toml.get? t key = some v → (read v).isSome = false → v.hasTooWide = false := by
  unfold field
  cases Toml.get? t key with
  | none => simp
  | some v =>
    cases hread : read v with
    | some a => simp [hread]
    | none =>
      simp only [map_eq_ok_iff, Option.some.injEq, forall_eq', hread, Option.isSome_none, forall_const]
      have hissue : (∃ issue, typeIssue expected (place ++ "." ++ key) v = .ok issue) ↔ v.hasTooWide = false :=
        exists_typeIssue_iff
      rw [← hissue]
      exact ⟨fun ⟨_, issue, h, _⟩ => ⟨issue, h⟩, fun ⟨issue, h⟩ => ⟨_, issue, h, rfl⟩⟩

theorem exists_textsField_iff :
    (∃ r, textsField t place key = .ok r) ↔
      ∀ v, Toml.get? t key = some v → ∀ w ∈ Kind.texts.refused v, w.hasTooWide = false := by
  have hitems (items : List Toml) : (∃ issues, (items.filter fun w => (asText w).isNone).mapM
      (itemIssue (place ++ "." ++ key)) = .ok issues) ↔
        ∀ w ∈ items.filter fun w => (asText w).isNone, w.hasTooWide = false := by
    rw [exists_mapM_eq_ok_iff]
    exact forall₂_congr fun w _ => exists_itemIssue_iff
  have hfield : (∃ r, field "list" asItems t place key = .ok r) ↔
      ∀ v, Toml.get? t key = some v → (asItems v).isSome = false → v.hasTooWide = false :=
    exists_field_iff
  constructor
  · rintro ⟨r, hr⟩ v hv w hw
    obtain ⟨⟨items, issues⟩, hread, hr⟩ := bind_eq_ok_iff.mp hr
    have hsome := eq_of_field hread
    rw [hv, Option.bind_some] at hsome
    cases hv' : asItems v with
    | none =>
      have hvw : w = v := by simpa [Kind.refused, hv'] using hw
      exact hvw ▸ hfield.mp ⟨_, hread⟩ v hv (by rw [hv']; rfl)
    | some vs =>
      rw [hv'] at hsome
      subst hsome
      obtain ⟨others, hothers, -⟩ := bind_eq_ok_iff.mp hr
      have hmem : w ∈ vs.filter fun w => (asText w).isNone := by simpa [Kind.refused, hv'] using hw
      exact (hitems vs).mp ⟨others, hothers⟩ w hmem
  · intro h
    obtain ⟨⟨items, issues⟩, hread⟩ := hfield.mpr fun v hv hnone => by
      have hv' : asItems v = none := Option.isSome_eq_false_iff.mp hnone |> Option.isNone_iff_eq_none.mp
      exact h v hv v (by simp [Kind.refused, hv'])
    have hsome := eq_of_field hread
    unfold textsField
    rw [hread]
    cases items with
    | none => exact ⟨_, rfl⟩
    | some vs =>
      obtain ⟨v, hv, hv'⟩ := Option.bind_eq_some_iff.mp hsome.symm
      obtain ⟨others, hothers⟩ := (hitems vs).mpr fun w hw => h v hv w (by simpa [Kind.refused, hv'] using hw)
      exact ⟨_, bind_eq_ok_iff.mpr ⟨_, rfl, bind_eq_ok_iff.mpr ⟨others, hothers, rfl⟩⟩⟩

/-- A key can be read. -/
def Key.Reads (t : Toml.Table) (k : Key) : Prop :=
  let s := Toml.subtable t k.place.name
  match k.kind with
  | .text => ∃ r, textField s k.place.place k.name = .ok r
  | .truth => ∃ r, boolField s k.place.place k.name = .ok r
  | .number => ∃ r, intField s k.place.place k.name = .ok r
  | .texts => ∃ r, textsField s k.place.place k.name = .ok r

theorem Key.reads_iff (k : Key) : k.Reads t ↔ ∀ v ∈ k.refused t, v.hasTooWide = false := by
  have hrefused : (∀ w ∈ k.refused t, w.hasTooWide = false) ↔
      ∀ v, Toml.get? (Toml.subtable t k.place.name) k.name = some v → ∀ w ∈ k.kind.refused v, w.hasTooWide = false := by
    unfold refused
    cases Toml.get? (Toml.subtable t k.place.name) k.name <;> simp
  have hone (b : Bool) (v : Toml) : (∀ w ∈ (if b then [] else [v]), w.hasTooWide = false) ↔
      (b = false → v.hasTooWide = false) := by
    cases b <;> simp
  rw [hrefused]
  obtain ⟨place, name, kind⟩ := k
  cases kind with
  | text => exact exists_field_iff.trans (forall₂_congr fun v _ => (hone _ v).symm)
  | truth => exact exists_field_iff.trans (forall₂_congr fun v _ => (hone _ v).symm)
  | number => exact exists_field_iff.trans (forall₂_congr fun v _ => (hone _ v).symm)
  | texts => exact exists_textsField_iff

end Schema

/-! ## Tables -/

/-- A table has settings if nothing in it stands in the way. -/
theorem Draft.ofTable_isOk_iff {e : Environment} (he : e.IsSound) {source : Option Path}
    (hsource : ∀ p ∈ source, p.IsNamable) {t : Toml.Table} :
    (∃ d, Draft.ofTable e t source = .ok d) ↔ Schema.Admits t := by
  have hadmits : Schema.Admits t ↔
      (∀ k ∈ Schema.keys, k.Reads t) ∧ ∀ raw ∈ Schema.rawPaths t, Text.IsNamable raw :=
    ⟨fun h => ⟨fun k hk => k.reads_iff.mpr (h.shown k hk), h.named⟩,
      fun h => ⟨fun k hk => k.reads_iff.mp (h.1 k hk), h.2⟩⟩
  have hpaths {raw : Option (List Text)} {issues : List Text}
      (hraw : Schema.textsField (Toml.subtable t Schema.formatter.name) Schema.formatter.place "search_paths" =
        .ok (raw, issues)) :
      (∃ ps, raw.mapM (e.directories source) = .ok ps) ↔ ∀ r ∈ Schema.rawPaths t, Text.IsNamable r := by
    have hrawPaths : Schema.rawPaths t = raw.getD [] := by
      rw [Schema.eq_of_textsField hraw, Schema.rawPaths]
      cases Toml.get? (Toml.subtable t Schema.formatter.name) "search_paths" with
      | none => rfl
      | some v => cases hv : Schema.asItems v <;> simp [hv]
    rw [hrawPaths]
    cases raw with
    | none => exact iff_of_true ⟨none, rfl⟩ (by simp)
    | some raw =>
      rw [Option.getD_some, ← Environment.directories_isOk_iff he hsource]
      exact ⟨fun ⟨_, h⟩ => (bind_eq_ok_iff.mp h).imp fun _ h => h.1, fun ⟨ps, h⟩ =>
        ⟨some ps, bind_eq_ok_iff.mpr ⟨ps, h, rfl⟩⟩⟩
  rw [hadmits]
  simp only [Draft.ofTable, bind_eq_ok_iff, mapError_eq_ok_iff, pure_eq_ok_iff, Prod.exists]
  simp only [Schema.keys, List.forall_mem_cons, List.not_mem_nil, IsEmpty.forall_iff, implies_true, and_true]
  constructor
  · rintro ⟨_, _, _, hcmd, _, _, hargs, _, _, hwidth, _, _, htimeout, _, _, hsync, raw, _, hraw, paths, hps, _, _,
      henabled, _, _, hentries, _, _, hopen, _, _, htitle, -⟩
    exact ⟨⟨⟨_, hcmd⟩, ⟨_, hargs⟩, ⟨_, hwidth⟩, ⟨_, htimeout⟩, ⟨_, hsync⟩, ⟨_, hraw⟩, ⟨_, henabled⟩, ⟨_, hentries⟩,
      ⟨_, hopen⟩, ⟨_, htitle⟩⟩, (hpaths hraw).mp ⟨paths, hps⟩⟩
  · rintro ⟨⟨⟨⟨_, _⟩, hcmd⟩, ⟨⟨_, _⟩, hargs⟩, ⟨⟨_, _⟩, hwidth⟩, ⟨⟨_, _⟩, htimeout⟩, ⟨⟨_, _⟩, hsync⟩, ⟨⟨raw, _⟩, hraw⟩,
      ⟨⟨_, _⟩, henabled⟩, ⟨⟨_, _⟩, hentries⟩, ⟨⟨_, _⟩, hopen⟩, ⟨⟨_, _⟩, htitle⟩⟩, hnamed⟩
    obtain ⟨paths, hps⟩ := (hpaths hraw).mpr hnamed
    exact ⟨_, _, _, hcmd, _, _, hargs, _, _, hwidth, _, _, htimeout, _, _, hsync, raw, _, hraw, paths, hps, _, _,
      henabled, _, _, hentries, _, _, hopen, _, _, htitle, rfl⟩

end Legible
