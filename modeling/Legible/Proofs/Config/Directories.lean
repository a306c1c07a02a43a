import Legible.Proofs.Config.Finishing
import Legible.Proofs.Config.Loading
/-!
# The directories of settings

A file names directories as it likes: by a tilde, with dots, as seen from where it stands. In the settings they are
resolved (`Host.isResolved_of_gatherLayers`), whichever layer they come from, if the working directory is.
-/

namespace Legible

namespace Path

/-- Each name of the path can be one part of a path. -/
def HasParts (p : Path) : Prop := ∀ n ∈ p.parts, IsPart n

variable {p q : Path}

theorem parent_child (p : Path) (name : Text) : (p.child name).parent = p :=
  congrArg (Path.mk p.root) List.dropLast_concat

theorem hasParts_ofText (t : Text) : (ofText t).HasParts := fun _ => isPart_of_mem_ofText

theorem IsResolved.hasParts (hp : p.IsResolved) : p.HasParts := fun n hn => (hp.parts n hn).1

theorem HasParts.parent (hp : p.HasParts) : p.parent.HasParts := fun n hn => hp n (List.mem_of_mem_dropLast hn)

theorem HasParts.child (hp : p.HasParts) {name : Text} (hname : IsPart name) : (p.child name).HasParts :=
  List.forall_mem_append.mpr ⟨hp, List.forall_mem_singleton.mpr hname⟩

theorem HasParts.join (hp : p.HasParts) (hq : q.HasParts) : (p.join q).HasParts := by
  unfold Path.join
  split
  · exact hq
  · exact List.forall_mem_append.mpr ⟨hp, hq⟩

end Path

namespace Environment

variable {e : Environment} {p q : Path}

theorem isResolved_of_resolve (he : e.directory.IsResolved) (hp : p.HasParts) (h : e.resolve p = .ok q) :
    q.IsResolved := by
  obtain ⟨hnamable, rfl⟩ := resolve_eq_ok_iff.mp h
  exact Path.isResolved_resolve he hp hnamable

theorem isResolved_of_resolveFrom (he : e.directory.IsResolved) (hp : p.HasParts) {raw : Text}
    (h : e.resolveFrom p raw = .ok q) : q.IsResolved := by
  unfold resolveFrom at h
  split at h
  · cases h
  · exact isResolved_of_resolve he (hp.join (Path.hasParts_ofText _)) h

theorem isResolved_of_directories (he : e.directory.IsResolved) {source : Option Path}
    (hsource : ∀ p ∈ source, p.parent.HasParts) {raw : List Text} {ps : List Path}
    (h : e.directories source raw = .ok ps) : ∀ p ∈ ps, p.IsResolved := by
  obtain ⟨base, hbase, hps⟩ : ∃ base : Path, base.HasParts ∧ raw.mapM (e.resolveFrom base) = .ok ps := by
    cases source with
    | none => exact ⟨e.directory, he.hasParts, h⟩
    | some p =>
      obtain ⟨base, hbase, hps⟩ := bind_eq_ok_iff.mp h
      exact ⟨base, (isResolved_of_resolve he (hsource p rfl) hbase).hasParts, hps⟩
  clear h
  induction raw generalizing ps with
  | nil =>
    cases pure_eq_ok_iff.mp hps
    exact fun _ hp => absurd hp List.not_mem_nil
  | cons r raw ih =>
    rw [List.mapM_cons] at hps
    obtain ⟨p, hp, hps⟩ := bind_eq_ok_iff.mp hps
    obtain ⟨rest, hrest, hps⟩ := bind_eq_ok_iff.mp hps
    cases pure_eq_ok_iff.mp hps
    exact List.forall_mem_cons.mpr ⟨isResolved_of_resolveFrom he hbase hp, ih hrest⟩

theorem hasParts_of_home (h : e.home = .ok p) : p.HasParts := by
  unfold home at h
  dsimp only at h
  split at h
  · cases h
  · cases h
    exact Path.hasParts_ofText _

theorem hasParts_of_baseDirectory {name : Text} (hq : q.HasParts) (h : e.baseDirectory name q = .ok p) :
    p.HasParts := by
  unfold baseDirectory at h
  split at h
  · cases h
    exact Path.hasParts_ofText _
  · obtain ⟨home, hhome, rfl⟩ := map_eq_ok_iff.mp h
    exact (hasParts_of_home hhome).join hq

end Environment

namespace Draft

/-- The directories are resolved, if any are set. -/
def IsResolved (d : Draft) : Prop := ∀ ps ∈ d.searchPaths, ∀ p ∈ ps, p.IsResolved

variable {d d' : Draft}

theorem isResolved_default : default.IsResolved := fun ps hps p hp => by
  cases hps
  exact absurd hp List.not_mem_nil

theorem IsResolved.mergeWith (hd : d.IsResolved) (hd' : d'.IsResolved) : (d.mergeWith d').IsResolved := fun ps hps => by
  cases hset : d'.searchPaths with
  | none => exact hd ps (by simpa [Draft.mergeWith, hset] using hps)
  | some _ => exact hd' ps (by simpa [Draft.mergeWith, hset] using hps)

theorem IsResolved.freeze {c : Config} (hd : d.IsResolved) (h : d.freeze = .ok c) :
    ∀ p ∈ c.searchPaths, p.IsResolved := by
  have hsearch : c.searchPaths = d.searchPaths.getD [] := (settles_of_freeze h).searchPaths
  rw [hsearch]
  cases hset : d.searchPaths with
  | none => exact fun _ hp => absurd hp List.not_mem_nil
  | some ps => exact hd ps hset

theorem isResolved_of_ofTable {e : Environment} (he : e.directory.IsResolved) {t : Toml.Table} {source : Option Path}
    (hsource : ∀ p ∈ source, p.parent.HasParts) (h : ofTable e t source = .ok d) : d.IsResolved := by
  simp only [ofTable, bind_eq_ok_iff, mapError_eq_ok_iff, pure_eq_ok_iff, Prod.exists] at h
  obtain ⟨_, _, -, _, _, -, _, _, -, _, _, -, _, _, -, raw, _, -, paths, hpaths, _, _, -, _, _, -, _, _, -, _, _, -,
    rfl⟩ := h
  intro ps hps
  cases raw with
  | none =>
    cases pure_eq_ok_iff.mp hpaths
    cases hps
  | some raw =>
    obtain ⟨ps', hps', hsome⟩ := bind_eq_ok_iff.mp hpaths
    cases pure_eq_ok_iff.mp hsome
    cases hps
    exact Environment.isResolved_of_directories he hsource hps'

end Draft

namespace Host

variable {h : Host} {d d' : Draft}

theorem isResolved_of_gather (he : h.environment.directory.IsResolved) {paths : List Path}
    (hpaths : ∀ p ∈ paths, p.parent.HasParts) (hd : d.IsResolved) (hgather : h.gather d paths = (d', none)) :
    d'.IsResolved := by
  induction paths generalizing d with
  | nil =>
    cases hgather
    exact hd
  | cons p paths ih =>
    obtain ⟨hp, hpaths⟩ := List.forall_mem_cons.mp hpaths
    rw [gather] at hgather
    split at hgather
    · rename_i e hadd
      refine ih hpaths ?_ hgather
      rcases addFile_cases hadd with ⟨-, -, -, rfl⟩ | ⟨l, rfl, rfl⟩
      · exact hd
      · have hsource : ∀ q ∈ some l.path, q.parent.HasParts := fun q hq => Option.some.inj hq ▸ hp
        exact hd.mergeWith (Draft.isResolved_of_ofTable he hsource l.drafted)
    · cases hgather

theorem hasParts_of_userFile? {p : Path} (huser : h.userFile? = .ok (some p)) : p.parent.HasParts := by
  obtain ⟨places, hplaces, hfind⟩ := bind_eq_ok_iff.mp huser
  obtain ⟨base, hbase, hplaces⟩ := bind_eq_ok_iff.mp (mapError_eq_ok_iff.mp hplaces)
  obtain ⟨home, hhome, hplaces⟩ := bind_eq_ok_iff.mp hplaces
  cases pure_eq_ok_iff.mp hplaces
  rcases List.mem_pair.mp (of_findM? hfind).1 with rfl | rfl
  · rw [Path.parent_child]
    exact (Environment.hasParts_of_baseDirectory (Path.hasParts_ofText _) hbase).child (by decide)
  · rw [Path.parent_child]
    exact Environment.hasParts_of_home hhome

theorem hasParts_of_discover (he : h.environment.directory.IsResolved) {anchor : Path} (hanchor : anchor.HasParts)
    {files : List Path} (hfiles : h.discover anchor = .ok files) : ∀ p ∈ files, p.parent.HasParts := by
  obtain ⟨start, hstart, hwalk⟩ := bind_eq_ok_iff.mp hfiles
  obtain ⟨resolved, hresolved, hstart⟩ := bind_eq_ok_iff.mp hstart
  obtain ⟨stands, -, hstart⟩ := bind_eq_ok_iff.mp hstart
  have hparts : resolved.HasParts :=
    (Environment.isResolved_of_resolve he hanchor (mapError_eq_ok_iff.mp hresolved)).hasParts
  have hstartParts : start.HasParts := by
    cases pure_eq_ok_iff.mp hstart
    split
    · exact hparts.parent
    · exact hparts
  exact fun p hp n hn => hstartParts n (((inwards_of_walkUp hwalk).1 p hp).subset hn)

/-- All layers set resolved directories. -/
theorem isResolved_of_gatherLayers (he : h.environment.directory.IsResolved) {anchor : Path} (hanchor : anchor.HasParts)
    {named : List Path} (hnamed : ∀ p ∈ named, p.parent.HasParts) {noFiles : Bool}
    (hlayers : h.gatherLayers anchor named noFiles = (d, none)) : d.IsResolved := by
  unfold gatherLayers at hlayers
  cases noFiles with
  | true => exact isResolved_of_gather he hnamed Draft.isResolved_default hlayers
  | false =>
    simp only [Bool.false_eq_true, if_false] at hlayers
    split at hlayers
    · cases hlayers
    rename_i found hfound
    refine isResolved_of_gather he hnamed ?_ hlayers
    unfold gatherFound at hfound
    split at hfound
    · cases hfound
    rename_i user huser
    split at hfound
    · cases hfound
    rename_i own hown
    split at hfound
    · cases hfound
    rename_i project hproject
    have hownParts : ∀ p ∈ user.toList, p.parent.HasParts := fun p hp =>
      hasParts_of_userFile? (huser.trans (congrArg Except.ok (Option.mem_toList.mp hp)))
    exact isResolved_of_gather he (hasParts_of_discover he hanchor hproject)
      (isResolved_of_gather he hownParts Draft.isResolved_default hown) hfound

end Host

end Legible
