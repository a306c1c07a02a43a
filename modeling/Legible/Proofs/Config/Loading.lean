import Legible.Proofs.Config.Discovery
import Legible.Proofs.Config.Schema
import Mathlib.Tactic.MkIffOfInductiveProp
/-!
# Which files stop the program

A file that is not there, cannot be read or is ill-formed counts as empty. What else a file holds may still stop the
program (`Host.IsHarmless` says when it does not): bytes that are no UTF-8, a table that has a key twice, a value of
another type that cannot be shown, and a path that can name no file. It stops whatever meets the file: a search for
settings and the loading of all layers. Nothing else in a file does that.
-/

namespace Legible

namespace Host

variable {h : Host} {p : Path} {bytes : Bytes}

/-! ## The content of a file -/

/-- A file with this content stands at the path. -/
def HasContent (h : Host) (p : Path) (bytes : Bytes) : Prop :=
  p.fault? = none ∧ h.files.read h.environment.directory p = .ok bytes

/-- The tables that contents give. Ill-formed text gives the empty one. -/
@[mk_iff]
inductive Yields : Bytes → Toml.Table → Prop
  | document {bytes : Bytes} {text : Text} {t : Toml.Table} :
      Utf8.decode bytes = .ok text → Toml.parse text.unifyNewlines = .ok t → Yields bytes t
  | malformed {bytes : Bytes} {text : Text} :
      Utf8.decode bytes = .ok text → Toml.parse text.unifyNewlines = .error .malformed → Yields bytes []

/-- The contents that give no table at all. -/
@[mk_iff]
inductive Stops : Bytes → ConfigError → Prop
  | notUtf8 {bytes : Bytes} {e : Utf8.DecodeError} : Utf8.decode bytes = .error e → Stops bytes (.notUtf8 e)
  | conflict {bytes : Bytes} {text : Text} {c : Toml.Conflict} :
      Utf8.decode bytes = .ok text → Toml.parse text.unifyNewlines = .error (.conflict c) → Stops bytes (.conflict c)

/-- The content gives a table, and nothing in it stands in the way of the settings that a file of this name has. -/
def IsHarmless (p : Path) (bytes : Bytes) : Prop :=
  ∃ t, Yields bytes t ∧ ∀ s, settingsOf p t = some s → Schema.Admits s

theorem HasContent.unique {bytes' : Bytes} (hb : h.HasContent p bytes) (hb' : h.HasContent p bytes') :
    bytes = bytes' :=
  Except.ok.inj (hb.2.symm.trans hb'.2)

theorem isFile_eq_true_iff : h.isFile p = .ok true ↔ ∃ bytes, h.HasContent p bytes := by
  simp only [isFile, mapError_eq_ok_iff, HasContent, FileTree.isFile, FileTree.read]
  cases p.fault? with
  | some f => simp
  | none =>
    cases h.files.find h.environment.directory p with
    | error f => cases f <;> simp
    | ok node => cases node <;> simp

theorem readTable_of_hasContent (hb : h.HasContent p bytes) :
    (∀ t, h.readTable p = .ok t ↔ Yields bytes t) ∧ ∀ e, h.readTable p = .error e ↔ Stops bytes e := by
  simp only [readTable, hb.1, hb.2, yields_iff, stops_iff]
  cases hdecode : Utf8.decode bytes with
  | error e => simp [eq_comm]
  | ok text =>
    cases hparse : Toml.parse text.unifyNewlines with
    | ok t => simp [hparse, eq_comm]
    | error stop => cases stop <;> simp [hparse, eq_comm]

theorem readTable_of_no_content (hp : p.fault? = none) (hnone : ∀ bytes, ¬ h.HasContent p bytes) :
    h.readTable p = .ok [] := by
  rw [readTable, hp]
  cases hread : h.files.read h.environment.directory p with
  | error f => rfl
  | ok bytes => exact absurd ⟨hp, hread⟩ (hnone bytes)

theorem readTable_eq_ok_iff (hp : p.fault? = none) {t : Toml.Table} : h.readTable p = .ok t ↔
    (∃ bytes, h.HasContent p bytes ∧ Yields bytes t) ∨ (∀ bytes, ¬ h.HasContent p bytes) ∧ t = [] := by
  by_cases hsome : ∃ bytes, h.HasContent p bytes
  · obtain ⟨bytes, hb⟩ := hsome
    rw [(readTable_of_hasContent hb).1]
    refine ⟨fun ht => .inl ⟨bytes, hb, ht⟩, ?_⟩
    rintro (⟨bytes', hb', ht⟩ | ⟨hnone, -⟩)
    · exact hb.unique hb' ▸ ht
    · exact absurd hb (hnone bytes)
  · have hnone := not_exists.mp hsome
    rw [readTable_of_no_content hp hnone]
    refine ⟨fun ht => .inr ⟨hnone, (Except.ok.inj ht).symm⟩, ?_⟩
    rintro (⟨bytes, hb, -⟩ | ⟨-, rfl⟩)
    · exact absurd hb (hnone bytes)
    · rfl

theorem readTable_eq_error_iff (hp : p.fault? = none) {e : ConfigError} :
    h.readTable p = .error e ↔ ∃ bytes, h.HasContent p bytes ∧ Stops bytes e := by
  constructor
  · intro he
    by_cases hsome : ∃ bytes, h.HasContent p bytes
    · obtain ⟨bytes, hb⟩ := hsome
      exact ⟨bytes, hb, ((readTable_of_hasContent hb).2 e).mp he⟩
    · rw [readTable_of_no_content hp (not_exists.mp hsome)] at he
      cases he
  · rintro ⟨bytes, hb, hstops⟩
    exact ((readTable_of_hasContent hb).2 e).mpr hstops

theorem readTable_isOk_iff (hp : p.fault? = none) :
    (∃ t, h.readTable p = .ok t) ↔ ∀ bytes, h.HasContent p bytes → ∃ t, Yields bytes t := by
  constructor
  · rintro ⟨t, ht⟩ bytes hb
    exact ⟨t, ((readTable_of_hasContent hb).1 t).mp ht⟩
  · intro hyields
    by_cases hsome : ∃ bytes, h.HasContent p bytes
    · obtain ⟨bytes, hb⟩ := hsome
      exact (hyields bytes hb).imp fun t ht => ((readTable_of_hasContent hb).1 t).mpr ht
    · exact ⟨[], readTable_of_no_content hp (not_exists.mp hsome)⟩

/-- Where no file stands there is nothing to read. -/
theorem readable_iff {stands : Bool} (hstands : h.isFile p = .ok stands) :
    h.Readable p ↔ ∀ bytes, h.HasContent p bytes → ∃ t, Yields bytes t := by
  cases stands with
  | false =>
    refine iff_of_true ⟨false, hstands, nofun⟩ fun bytes hb => ?_
    rw [isFile_eq_true_iff.mpr ⟨bytes, hb⟩] at hstands
    cases hstands
  | true =>
    obtain ⟨bytes, hb⟩ := isFile_eq_true_iff.mp hstands
    rw [← readTable_isOk_iff hb.1]
    refine ⟨fun ⟨stands, hstands', ht⟩ => ht ?_, fun ht => ⟨true, hstands, fun _ => ht⟩⟩
    exact Except.ok.inj (hstands'.symm.trans hstands)

/-- A file has settings, or none at all, if it is harmless. -/
theorem draftOfFile_isOk_iff (he : h.environment.IsSound) (hp : p.fault? = none) :
    (∃ r, h.draftOfFile p = .ok r) ↔ ∀ bytes, h.HasContent p bytes → IsHarmless p bytes := by
  have hnamable : ∀ q ∈ some p, q.IsNamable := fun q hq =>
    Option.some.inj hq ▸ (Path.fault?_eq_none_iff.mp hp).2
  have hdraft : (∃ r, h.draftOfFile p = .ok r) ↔
      ∃ t, h.readTable p = .ok t ∧ ∀ s, settingsOf p t = some s → Schema.Admits s := by
    constructor
    · rintro ⟨r, hr⟩
      obtain ⟨t, ht, hr⟩ := bind_eq_ok_iff.mp hr
      refine ⟨t, ht, fun s hs => ?_⟩
      rw [hs] at hr
      obtain ⟨d, hd, -⟩ := bind_eq_ok_iff.mp hr
      exact (Draft.ofTable_isOk_iff he hnamable).mp ⟨d, mapError_eq_ok_iff.mp hd⟩
    · rintro ⟨t, ht, hadmits⟩
      simp only [draftOfFile, bind_eq_ok_iff]
      cases hs : settingsOf p t with
      | none => exact ⟨none, t, ht, by rw [hs]; rfl⟩
      | some s =>
        obtain ⟨d, hd⟩ := (Draft.ofTable_isOk_iff he hnamable).mpr (hadmits s hs)
        refine ⟨some d, t, ht, ?_⟩
        rw [hs]
        exact bind_eq_ok_iff.mpr ⟨d, mapError_eq_ok_iff.mpr hd, rfl⟩
  rw [hdraft]
  constructor
  · rintro ⟨t, ht, hadmits⟩ bytes hb
    exact ⟨t, ((readTable_of_hasContent hb).1 t).mp ht, hadmits⟩
  · intro hharmless
    by_cases hsome : ∃ bytes, h.HasContent p bytes
    · obtain ⟨bytes, hb⟩ := hsome
      obtain ⟨t, ht, hadmits⟩ := hharmless bytes hb
      exact ⟨t, ((readTable_of_hasContent hb).1 t).mpr ht, hadmits⟩
    · refine ⟨[], readTable_of_no_content hp (not_exists.mp hsome), fun s hs => ?_⟩
      have hempty : s = [] := by
        unfold settingsOf at hs
        split at hs
        · cases hs
        · exact (Option.some.inj hs).symm
      exact hempty ▸ Schema.admits_nil

/-! ## The search -/

theorem localFile_isOk_iff {d : Path} {name : Text} :
    (∃ r, h.localFile d name = .ok r) ↔ h.Readable (d.child name) := by
  refine ⟨fun ⟨r, hr⟩ => ?_, fun hread => ⟨_, localFile_of_readable hread⟩⟩
  obtain ⟨stands, hstands, hr⟩ := bind_eq_ok_iff.mp hr
  refine ⟨stands, hstands, fun htrue => ?_⟩
  rw [if_pos htrue] at hr
  exact (bind_eq_ok_iff.mp hr).imp fun t ht => ht.1

theorem readableIn_of_localFiles {d : Path} {r : List Path × Bool} (hr : h.localFiles d = .ok r) :
    h.ReadableIn d := by
  obtain ⟨shared, hshared, hr⟩ := bind_eq_ok_iff.mp hr
  obtain ⟨own, hown, -⟩ := bind_eq_ok_iff.mp hr
  exact ⟨localFile_isOk_iff.mp ⟨shared, hshared⟩, localFile_isOk_iff.mp ⟨own, hown⟩⟩

/-- A walk that goes well has read all files on it. -/
theorem readableIn_of_walkUp {n : Nat} {d : Path} {found : List Path} (hwalk : h.walkUp d n = .ok found) :
    ∀ level ≤ n, (∀ k < level, h.endsAt (d.above k) = false) → h.ReadableIn (d.above level) := by
  induction n generalizing d found with
  | zero =>
    obtain ⟨here, hhere, -⟩ := map_eq_ok_iff.mp hwalk
    intro level hle _
    cases Nat.le_zero.mp hle
    exact readableIn_of_localFiles hhere
  | succ n ih =>
    obtain ⟨⟨here, isRoot⟩, hhere, hwalk⟩ := bind_eq_ok_iff.mp hwalk
    have hreadHere := readableIn_of_localFiles hhere
    intro level hle hbelow
    cases level with
    | zero => exact hreadHere
    | succ level =>
      have hroot : isRoot = h.endsAt d := by
        rw [localFiles_of_readable hreadHere] at hhere
        exact (congrArg Prod.snd (Except.ok.inj hhere)).symm
      have hgoesOn : h.endsAt d = false := hbelow 0 (Nat.zero_lt_succ level)
      rw [hroot, hgoesOn] at hwalk
      obtain ⟨above, habove, -⟩ := bind_eq_ok_iff.mp hwalk
      exact ih habove level (Nat.le_of_succ_le_succ hle) fun k hk => hbelow (k + 1) (Nat.succ_lt_succ hk)

theorem discover_isOk_iff {start d : Path} (hstart : h.searchStart start = .ok d) :
    (∃ files, h.discover start = .ok files) ↔ ∀ level, h.Visits d level → h.ReadableIn (d.above level) := by
  have hdiscover : h.discover start = h.walkUp d d.parts.length := by rw [discover, hstart]; rfl
  rw [hdiscover]
  constructor
  · rintro ⟨files, hfiles⟩ level ⟨hle, hbelow⟩
    exact readableIn_of_walkUp hfiles level hle hbelow
  · intro hread
    obtain ⟨top, -, -, -, hwalk⟩ := exists_walkUp fun level hle hbelow => hread level ⟨hle, hbelow⟩
    exact ⟨_, hwalk⟩

/-- The files that a search finds stand where it has looked, and have settings. -/
theorem mem_of_discover {start d : Path} (hstart : h.searchStart start = .ok d) {files : List Path}
    (hfiles : h.discover start = .ok files) (p : Path) :
    p ∈ files ↔ ∃ level, h.Visits d level ∧ p ∈ h.filesIn (d.above level) := by
  obtain ⟨top, htop, hbelow, hstop, hwalk⟩ := exists_walkUp fun level hle hk =>
    (discover_isOk_iff hstart).mp ⟨files, hfiles⟩ level ⟨hle, hk⟩
  have heq : files = (d.lineage top).reverse.flatMap h.filesIn := by
    rw [discover, hstart] at hfiles
    exact Except.ok.inj (hfiles.symm.trans hwalk)
  rw [heq, List.mem_flatMap]
  constructor
  · rintro ⟨_, hmem, hp⟩
    obtain ⟨level, hlevel, rfl⟩ := List.mem_map.mp (List.mem_reverse.mp hmem)
    have hle := Nat.le_of_lt_succ (List.mem_range.mp hlevel)
    exact ⟨level, ⟨hle.trans htop, fun k hk => hbelow k (hk.trans_le hle)⟩, hp⟩
  · rintro ⟨level, ⟨hle, hvisits⟩, hp⟩
    refine ⟨d.above level, List.mem_reverse.mpr (List.mem_map.mpr ⟨level, List.mem_range.mpr ?_, rfl⟩), hp⟩
    rcases hstop with rfl | hend
    · exact Nat.lt_succ_of_le hle
    · by_contra hlt
      rw [hvisits top (by omega)] at hend
      cases hend

/-! ## All layers -/

/-- The files that loading the layers meets. -/
inductive Meets (h : Host) (anchor : Path) (named : List Path) (noFiles : Bool) : Path → Prop
  | user {p : Path} : noFiles = false → h.userFile? = .ok (some p) → Meets h anchor named noFiles p
  | visited {d : Path} {level : Nat} {name : Text} : noFiles = false → h.searchStart anchor = .ok d →
      h.Visits d level → name ∈ [sharedName, ownName] → Meets h anchor named noFiles ((d.above level).child name)
  | named {p : Path} : p ∈ named → Meets h anchor named noFiles p

/-- Where the user's file stands and where the search starts is known, and whether files stand at the places where it
may look. None of this depends on what a file holds. -/
structure Locates (h : Host) (anchor d : Path) : Prop where
  user : ∃ file, h.userFile? = .ok file
  start : h.searchStart anchor = .ok d
  answers : ∀ level ≤ d.parts.length, ∀ name ∈ [sharedName, ownName],
    ∃ stands, h.isFile ((d.above level).child name) = .ok stands

theorem gather_eq_none_iff {paths : List Path} {d : Draft} :
    (h.gather d paths).2 = none ↔ ∀ p ∈ paths, ∃ r, h.draftOfFile p = .ok r := by
  induction paths generalizing d with
  | nil => simp [gather]
  | cons p paths ih =>
    have hadd : (∃ d', h.addFile d p = .ok d') ↔ ∃ r, h.draftOfFile p = .ok r := by
      constructor
      · rintro ⟨d', hd'⟩
        exact (bind_eq_ok_iff.mp hd').imp fun r hr => hr.1
      · rintro ⟨r, hr⟩
        cases r with
        | none => exact ⟨d, bind_eq_ok_iff.mpr ⟨none, hr, rfl⟩⟩
        | some e => exact ⟨d.mergeWith e, bind_eq_ok_iff.mpr ⟨some e, hr, rfl⟩⟩
    rw [gather, List.forall_mem_cons, ← hadd]
    cases h.addFile d p with
    | ok e => simp [ih]
    | error e => simp

theorem loadMerged_isOk_iff {anchor : Path} {named : List Path} {noFiles : Bool} :
    (∃ d, h.loadMerged anchor named noFiles = .ok d) ↔
      (noFiles = false → (h.gatherFound anchor).2 = none) ∧ ∀ p ∈ named, ∃ r, h.draftOfFile p = .ok r := by
  have hlayers : (∃ d, h.loadMerged anchor named noFiles = .ok d) ↔ (h.gatherLayers anchor named noFiles).2 = none := by
    unfold loadMerged
    obtain ⟨d, e⟩ := h.gatherLayers anchor named noFiles
    cases e <;> simp
  rw [hlayers, gatherLayers]
  cases noFiles with
  | true => simp [gather_eq_none_iff]
  | false =>
    obtain ⟨d, e⟩ := h.gatherFound anchor
    cases e <;> simp [gather_eq_none_iff]

theorem gatherFound_eq_none_iff {anchor : Path} {user : Option Path} (huser : h.userFile? = .ok user) :
    (h.gatherFound anchor).2 = none ↔ (∀ p ∈ user, ∃ r, h.draftOfFile p = .ok r) ∧
      ∃ files, h.discover anchor = .ok files ∧ ∀ p ∈ files, ∃ r, h.draftOfFile p = .ok r := by
  have hown : (h.gather Draft.default user.toList).2 = none ↔ ∀ p ∈ user, ∃ r, h.draftOfFile p = .ok r := by
    simp [gather_eq_none_iff]
  rw [← hown, gatherFound]
  simp only [huser]
  obtain ⟨d, e⟩ := h.gather Draft.default user.toList
  cases e with
  | some e => simp
  | none => cases h.discover anchor <;> simp [gather_eq_none_iff]

/-- A file that is found among places stands at one of them. -/
theorem of_findM? {places : List Path} (hfind : places.findM? h.isFile = .ok (some p)) :
    p ∈ places ∧ h.isFile p = .ok true := by
  induction places with
  | nil => cases pure_eq_ok_iff.mp hfind
  | cons q places ih =>
    rw [List.findM?] at hfind
    obtain ⟨stands, hstands, hfind⟩ := bind_eq_ok_iff.mp hfind
    cases stands with
    | true =>
      cases pure_eq_ok_iff.mp hfind
      exact ⟨List.mem_cons_self, hstands⟩
    | false => exact (ih hfind).imp_left (List.mem_cons_of_mem q)

theorem isFile_of_userFile? (huser : h.userFile? = .ok (some p)) : h.isFile p = .ok true := by
  obtain ⟨places, -, hplaces⟩ := bind_eq_ok_iff.mp huser
  exact (of_findM? hplaces).2

theorem hasFile_of_mem_filesIn {d : Path} (hp : p ∈ h.filesIn d) : h.hasFile p = true := by
  rcases List.mem_append.mp hp with hp | hp
  · split at hp
    · rename_i hshared
      exact List.mem_singleton.mp hp ▸ (Bool.and_eq_true_iff.mp hshared).1
    · cases hp
  · split at hp
    · rename_i hown
      exact List.mem_singleton.mp hp ▸ hown
    · cases hp

/-- A file that a search has looked at and not found is harmless: it is a shared one without a section. -/
theorem isHarmless_of_not_mem_filesIn {d : Path} {name : Text} (hname : name ∈ [sharedName, ownName])
    (hread : h.Readable (d.child name)) (hnot : d.child name ∉ h.filesIn d) (hb : h.HasContent (d.child name) bytes) :
    IsHarmless (d.child name) bytes := by
  have hstands := isFile_eq_true_iff.mpr ⟨bytes, hb⟩
  have hfile : h.hasFile (d.child name) = true := by rw [hasFile, hstands]; rfl
  obtain ⟨t, ht⟩ := (readTable_isOk_iff hb.1).mpr ((readable_iff hstands).mp hread)
  have hcontent : h.content (d.child name) = t := by rw [content, ht]; rfl
  refine ⟨t, ((readTable_of_hasContent hb).1 t).mp ht, fun s hs => absurd ?_ hnot⟩
  rcases List.mem_pair.mp hname with rfl | rfl
  · have hsection : (ownSection t).isEmpty = false := by
      rw [settingsOf, if_pos (Path.name_child d sharedName)] at hs
      by_contra hempty
      rw [if_pos (Bool.not_eq_false _ ▸ hempty)] at hs
      cases hs
    have hshared : h.hasShared d = true := by rw [hasShared, hfile, hcontent, hsection]; rfl
    simp [filesIn, hshared]
  · have hown : h.hasOwn d = true := hfile
    simp [filesIn, hown]

section

variable {anchor d : Path}

theorem Locates.readableIn_iff (hplaces : h.Locates anchor d) {level : Nat} (hle : level ≤ d.parts.length) :
    h.ReadableIn (d.above level) ↔ ∀ name ∈ [sharedName, ownName],
      ∀ bytes, h.HasContent ((d.above level).child name) bytes → ∃ t, Yields bytes t := by
  have hone (name : Text) (hname : name ∈ [sharedName, ownName]) : h.Readable ((d.above level).child name) ↔
      ∀ bytes, h.HasContent ((d.above level).child name) bytes → ∃ t, Yields bytes t := by
    obtain ⟨stands, hstands⟩ := hplaces.answers level hle name hname
    exact readable_iff hstands
  rw [← forall₂_congr hone]
  simp [ReadableIn]

theorem Locates.discover_isOk_iff (hplaces : h.Locates anchor d) :
    (∃ files, h.discover anchor = .ok files) ↔ ∀ level, h.Visits d level → ∀ name ∈ [sharedName, ownName],
      ∀ bytes, h.HasContent ((d.above level).child name) bytes → ∃ t, Yields bytes t :=
  (Host.discover_isOk_iff hplaces.start).trans (forall₂_congr fun _ hvisits => hplaces.readableIn_iff hvisits.1)

/-- A file with settings in a directory has one of the names, and a content. -/
theorem Locates.hasContent_of_mem_filesIn (hplaces : h.Locates anchor d) {level : Nat}
    (hle : level ≤ d.parts.length) (hp : p ∈ h.filesIn (d.above level)) :
    (∃ bytes, h.HasContent p bytes) ∧ ∃ name ∈ [sharedName, ownName], p = (d.above level).child name := by
  obtain ⟨name, hname, rfl⟩ : ∃ name ∈ [sharedName, ownName], p = (d.above level).child name := by
    rcases mem_filesIn hp with rfl | rfl
    · exact ⟨sharedName, by simp, rfl⟩
    · exact ⟨ownName, by simp, rfl⟩
  obtain ⟨stands, hstands⟩ := hplaces.answers level hle name hname
  have htrue : stands = true := by
    have hfile := hasFile_of_mem_filesIn hp
    rwa [hasFile, hstands] at hfile
  exact ⟨isFile_eq_true_iff.mp (htrue ▸ hstands), name, hname, rfl⟩

/-- The layers can be loaded if every file met on the way is harmless. A shared file without a section is met by the
search alone. -/
theorem Locates.loadMerged_isOk_iff (hplaces : h.Locates anchor d) (he : h.environment.IsSound) {named : List Path}
    (hnamed : ∀ p ∈ named, p.fault? = none) (noFiles : Bool) :
    (∃ draft, h.loadMerged anchor named noFiles = .ok draft) ↔
      ∀ p, h.Meets anchor named noFiles p → ∀ bytes, h.HasContent p bytes → IsHarmless p bytes := by
  have hdraft {p : Path} (hp : p.fault? = none) := draftOfFile_isOk_iff (h := h) he hp
  obtain ⟨user, huser⟩ := hplaces.user
  rw [Host.loadMerged_isOk_iff, gatherFound_eq_none_iff huser]
  constructor
  · rintro ⟨hfound, hnamed⟩ p hmeets bytes hb
    cases hmeets with
    | user hfiles hp =>
      cases hp.symm.trans huser
      exact (hdraft hb.1).mp ((hfound hfiles).1 p rfl) bytes hb
    | @visited d' level name hfiles hd hvisits hname =>
      cases hplaces.start.symm.trans hd
      obtain ⟨-, files, hdiscover, hall⟩ := hfound hfiles
      by_cases hmem : (d.above level).child name ∈ h.filesIn (d.above level)
      · have hfile := (mem_of_discover hplaces.start hdiscover _).mpr ⟨level, hvisits, hmem⟩
        exact (hdraft hb.1).mp (hall _ hfile) bytes hb
      · have hread := hplaces.discover_isOk_iff.mp ⟨files, hdiscover⟩ level hvisits name hname
        have hreadable := (readable_iff (isFile_eq_true_iff.mpr ⟨bytes, hb⟩)).mpr hread
        exact isHarmless_of_not_mem_filesIn hname hreadable hmem hb
    | named hp => exact (hdraft hb.1).mp (hnamed p hp) bytes hb
  · intro hharmless
    refine ⟨fun hfiles => ⟨fun p hp => ?_, ?_⟩, fun p hp => (hdraft (hnamed p hp)).mpr (hharmless p (.named hp))⟩
    · rw [Option.mem_def.mp hp] at huser
      obtain ⟨bytes, hb⟩ := isFile_eq_true_iff.mp (isFile_of_userFile? huser)
      exact (hdraft hb.1).mpr (hharmless p (.user hfiles huser))
    · obtain ⟨files, hdiscover⟩ := hplaces.discover_isOk_iff.mpr fun level hvisits name hname bytes hb =>
        (hharmless _ (.visited hfiles hplaces.start hvisits hname) bytes hb).imp fun t ht => ht.1
      refine ⟨files, hdiscover, fun p hp => ?_⟩
      obtain ⟨level, hvisits, hmem⟩ := (mem_of_discover hplaces.start hdiscover p).mp hp
      obtain ⟨⟨bytes, hb⟩, name, hname, rfl⟩ := hplaces.hasContent_of_mem_filesIn hvisits.1 hmem
      exact (hdraft hb.1).mpr (hharmless _ (.visited hfiles hplaces.start hvisits hname))

/-- What stops the program, where the places to look at are known. Reading a file gives a table or tells why not, as its
content has it; the settings of one file can be had if the file is harmless; a search goes well if all files that it
looks at give tables; and all layers can be loaded if all files met on the way are harmless. -/
theorem only_harmful_files_stop_loading (hplaces : h.Locates anchor d) (he : h.environment.IsSound) {named : List Path}
    (hnamed : ∀ p ∈ named, p.fault? = none) :
    (∀ p, p.fault? = none →
      (∀ t, h.readTable p = .ok t ↔
        (∃ bytes, h.HasContent p bytes ∧ Yields bytes t) ∨ (∀ bytes, ¬ h.HasContent p bytes) ∧ t = []) ∧
      (∀ e, h.readTable p = .error e ↔ ∃ bytes, h.HasContent p bytes ∧ Stops bytes e) ∧
      ((∃ r, h.draftOfFile p = .ok r) ↔ ∀ bytes, h.HasContent p bytes → IsHarmless p bytes)) ∧
    ((∃ files, h.discover anchor = .ok files) ↔ ∀ level, h.Visits d level → ∀ name ∈ [sharedName, ownName],
      ∀ bytes, h.HasContent ((d.above level).child name) bytes → ∃ t, Yields bytes t) ∧
    ∀ noFiles, (∃ draft, h.loadMerged anchor named noFiles = .ok draft) ↔
      ∀ p, h.Meets anchor named noFiles p → ∀ bytes, h.HasContent p bytes → IsHarmless p bytes :=
  ⟨fun _ hp => ⟨fun _ => readTable_eq_ok_iff hp, fun _ => readTable_eq_error_iff hp, draftOfFile_isOk_iff he hp⟩,
    hplaces.discover_isOk_iff, hplaces.loadMerged_isOk_iff he hnamed⟩

/-- A file above the start that is no UTF-8 stops the search and with it the loading; without files, the named one is
loaded. -/
theorem undecodable_file_stops_loading :
    let h : Host := {
      environment := { bindings := [("HOME", "/home/u")], directory := .ofText "/work/app" }
      files := { nodes := [
        (["home", "u", ".tserrors.toml"], .file (Utf8.encode "[formatter]\nprint_width = []\n") false),
        (["work", "tserrors.toml"], .file [0xFF] false),
        (["work", "app", "tserrors.toml"], .file (Utf8.encode "root = [") false)] } }
    let anchor : Path := .ofText "/work/app"
    let bad : Path := .ofText "/work/tserrors.toml"
    let own : Path := .ofText "/home/u/.tserrors.toml"
    h.Locates anchor anchor ∧ h.environment.IsSound ∧ (∀ p ∈ [own], p.fault? = none) ∧
      h.HasContent bad [0xFF] ∧ (¬ ∃ files, h.discover anchor = .ok files) ∧
      (¬ ∃ draft, h.loadMerged anchor [own] false = .ok draft) ∧
      (∃ draft, h.loadMerged anchor [own] true = .ok draft) ∧
      ∀ bytes, h.HasContent own bytes → IsHarmless own bytes := by
  intro h anchor bad own
  have hplaces : h.Locates anchor anchor := by
    have hanswers : ∀ level ≤ 2, ∀ name ∈ [sharedName, ownName],
        h.isFile ((anchor.above level).child name) = .ok (h.hasFile ((anchor.above level).child name)) := by
      decide +kernel
    exact ⟨⟨some own, by decide +kernel⟩, by decide +kernel, fun level hle name hname =>
      ⟨_, hanswers level hle name hname⟩⟩
  have hsound : h.environment.IsSound := ⟨by decide +kernel, by decide +kernel, by decide +kernel, by decide +kernel⟩
  have hnamed : ∀ p ∈ [own], p.fault? = none := by decide +kernel
  have hbad : h.HasContent bad [0xFF] := ⟨by decide +kernel, by decide +kernel⟩
  have hvisits : h.Visits anchor 1 := ⟨by decide +kernel, by decide +kernel⟩
  have hundecodable (t : Toml.Table) : ¬ Yields [0xFF] t := by
    have hdecode : (Utf8.decode [0xFF]).toOption = none := by decide +kernel
    rintro (⟨htext, -⟩ | ⟨htext, -⟩) <;> (rw [htext] at hdecode; cases hdecode)
  obtain ⟨-, hdiscover, hload⟩ := only_harmful_files_stop_loading hplaces hsound hnamed
  have hloaded : ∃ draft, h.loadMerged anchor [own] true = .ok draft := by
    have hsome : (h.loadMerged anchor [own] true).toOption.isSome = true := by decide +kernel
    cases hresult : h.loadMerged anchor [own] true with
    | ok draft => exact ⟨draft, rfl⟩
    | error e => rw [hresult] at hsome; cases hsome
  refine ⟨hplaces, hsound, hnamed, hbad, fun hfound => ?_, fun hmerged => ?_, hloaded, ?_⟩
  · obtain ⟨t, ht⟩ := hdiscover.mp hfound 1 hvisits ownName (by simp) _ hbad
    exact hundecodable t ht
  · have hmeets : h.Meets anchor [own] false ((anchor.above 1).child ownName) :=
      .visited rfl hplaces.start hvisits (by simp)
    obtain ⟨t, ht, -⟩ := (hload false).mp hmerged _ hmeets _ hbad
    exact hundecodable t ht
  · exact (hload true).mp hloaded own (.named (List.mem_singleton_self own))

end

end Host

end Legible
