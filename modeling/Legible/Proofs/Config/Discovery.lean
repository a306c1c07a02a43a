import Legible.Proofs.Config.Effective
import Mathlib.Data.List.Nodup
/-!
# Which files a search finds

A search for settings looks at a directory and at those above it, each for a shared file and for one of its own. How
far it goes is told by levels: it stops at the first level with a file that ends the search, or at the root. What it
finds is then the files of the directories it has seen, from the outermost one down, the shared file before the other.
A shared file that ends the search does not hide the other file beside it, and one without a section ends no search.
-/

namespace Legible

namespace Path

/-- The directory so many levels up. -/
def above (p : Path) : Nat → Path
  | 0 => p
  | n + 1 => p.parent.above n

/-- The directories up to a level, the path itself first. -/
def lineage (p : Path) (top : Nat) : List Path := (List.range (top + 1)).map p.above

theorem lineage_succ (p : Path) (top : Nat) : p.lineage (top + 1) = p :: p.parent.lineage top := by
  rw [lineage, List.range_succ_eq_map, List.map_cons, List.map_map]
  rfl

@[simp] theorem name_child (p : Path) (name : Text) : (p.child name).name = name := by
  simp [child, Path.name]

end Path

namespace Host

variable {h : Host}

/-! ## The files of one directory -/

/-- A file stands at the path. -/
def hasFile (h : Host) (p : Path) : Bool := (h.isFile p).toOption.getD false

/-- The table of a file. -/
def content (h : Host) (p : Path) : Toml.Table := (h.readTable p).toOption.getD []

/-- The section that a shared file has for these settings. -/
def ownSection (t : Toml.Table) : Toml.Table := Toml.subtable (Toml.subtable t "tool") "tserrors"

/-- The directory has a shared file with a section that is not empty. -/
def hasShared (h : Host) (d : Path) : Bool :=
  h.hasFile (d.child sharedName) && !(ownSection (h.content (d.child sharedName))).isEmpty

/-- The directory has a file for these settings alone, whatever stands in it. -/
def hasOwn (h : Host) (d : Path) : Bool := h.hasFile (d.child ownName)

/-- The files with settings in a directory. -/
def filesIn (h : Host) (d : Path) : List Path :=
  (if h.hasShared d then [d.child sharedName] else []) ++ (if h.hasOwn d then [d.child ownName] else [])

/-- The settings say that the search ends here: the truth value itself, and nothing that counts as true. -/
def setsRoot (t : Toml.Table) : Bool :=
  match Association.lookup t Schema.rootKey with
  | some (.bool true) => true
  | _ => false

/-- One of the files with settings in the directory ends the search. -/
def endsAt (h : Host) (d : Path) : Bool :=
  (h.hasShared d && setsRoot (ownSection (h.content (d.child sharedName)))) ||
    (h.hasOwn d && setsRoot (h.content (d.child ownName)))

/-- Whether a file stands at the path can be told, and if one does, it can be read. -/
def Readable (h : Host) (p : Path) : Prop :=
  ∃ stands, h.isFile p = .ok stands ∧ (stands = true → ∃ t, h.readTable p = .ok t)

/-- The files that a search meets in the directory can be read. -/
def ReadableIn (h : Host) (d : Path) : Prop := h.Readable (d.child sharedName) ∧ h.Readable (d.child ownName)

theorem localFile_of_readable {d : Path} {name : Text} (hread : h.Readable (d.child name)) :
    h.localFile d name = .ok (if h.hasFile (d.child name) then
      (settingsOf (d.child name) (h.content (d.child name))).map fun s => (d.child name, setsRoot s) else none) := by
  obtain ⟨stands, hstands, hread⟩ := hread
  have hfile : h.hasFile (d.child name) = stands := by rw [hasFile, hstands]; rfl
  rw [hfile]
  cases stands with
  | false => simp [localFile, hstands, bind, Except.bind, pure, Except.pure]
  | true =>
    obtain ⟨t, ht⟩ := hread rfl
    have hcontent : h.content (d.child name) = t := by rw [content, ht]; rfl
    rw [hcontent]
    simp only [localFile, hstands, ht, bind, Except.bind, pure, Except.pure, if_true]
    cases settingsOf (d.child name) t <;> rfl

theorem localFile_shared {d : Path} (hread : h.Readable (d.child sharedName)) :
    h.localFile d sharedName = .ok (if h.hasShared d then
      some (d.child sharedName, setsRoot (ownSection (h.content (d.child sharedName)))) else none) := by
  rw [localFile_of_readable hread, settingsOf, if_pos (Path.name_child d sharedName), hasShared, ownSection]
  cases h.hasFile (d.child sharedName) <;>
    cases hs : Toml.subtable (Toml.subtable (h.content (d.child sharedName)) "tool") "tserrors" <;> rfl

theorem localFile_own {d : Path} (hread : h.Readable (d.child ownName)) :
    h.localFile d ownName =
      .ok (if h.hasOwn d then some (d.child ownName, setsRoot (h.content (d.child ownName))) else none) := by
  have hname : (d.child ownName).name ≠ sharedName := by
    rw [Path.name_child]
    decide
  rw [localFile_of_readable hread, settingsOf, if_neg hname]
  rfl

theorem localFiles_of_readable {d : Path} (hread : h.ReadableIn d) :
    h.localFiles d = .ok (h.filesIn d, h.endsAt d) := by
  rw [localFiles, localFile_shared hread.1, localFile_own hread.2, filesIn, endsAt]
  cases h.hasShared d <;> cases h.hasOwn d <;>
    simp [bind, Except.bind, pure, Except.pure]

/-! ## The walk -/

/-- A search that starts in the directory looks at the one so many levels up: no directory below ends the search. -/
def Visits (h : Host) (d : Path) (level : Nat) : Prop :=
  level ≤ d.parts.length ∧ ∀ k < level, h.endsAt (d.above k) = false

/-- The walk sees the levels up to `top`, and finds their files. -/
theorem exists_walkUp {d : Path} {n : Nat}
    (hread : ∀ level ≤ n, (∀ k < level, h.endsAt (d.above k) = false) → h.ReadableIn (d.above level)) :
    ∃ top ≤ n, (∀ k < top, h.endsAt (d.above k) = false) ∧ (top = n ∨ h.endsAt (d.above top) = true) ∧
      h.walkUp d n = .ok ((d.lineage top).reverse.flatMap h.filesIn) := by
  have here : h.localFiles d = .ok (h.filesIn d, h.endsAt d) :=
    localFiles_of_readable (hread 0 (Nat.zero_le n) fun _ hk => absurd hk (Nat.not_lt_zero _))
  have alone : (d.lineage 0).reverse.flatMap h.filesIn = h.filesIn d := by simp [Path.lineage, Path.above]
  induction n generalizing d with
  | zero =>
    refine ⟨0, Nat.le_refl 0, fun _ hk => absurd hk (Nat.not_lt_zero _), .inl rfl, ?_⟩
    rw [walkUp, here, alone]
    rfl
  | succ n ih =>
    cases hend : h.endsAt d with
    | true =>
      refine ⟨0, Nat.zero_le _, fun _ hk => absurd hk (Nat.not_lt_zero _), .inr hend, ?_⟩
      rw [walkUp, here, hend, alone]
      rfl
    | false =>
      have hup {level : Nat} (hk : ∀ k < level, h.endsAt (d.parent.above k) = false) :
          ∀ k < level + 1, h.endsAt (d.above k) = false
        | 0, _ => hend
        | k + 1, hlt => hk k (Nat.lt_of_succ_lt_succ hlt)
      have hreadUp : ∀ level ≤ n, (∀ k < level, h.endsAt (d.parent.above k) = false) →
          h.ReadableIn (d.parent.above level) :=
        fun level hle hk => hread (level + 1) (Nat.succ_le_succ hle) (hup hk)
      obtain ⟨top, htop, hbelow, hstop, hwalk⟩ := ih hreadUp
        (localFiles_of_readable (hreadUp 0 (Nat.zero_le n) fun _ hk => absurd hk (Nat.not_lt_zero _)))
        (by simp [Path.lineage, Path.above])
      refine ⟨top + 1, Nat.succ_le_succ htop, hup hbelow, hstop.imp_left (congrArg (· + 1)), ?_⟩
      rw [walkUp, here, hend, Path.lineage_succ, List.reverse_cons, List.flatMap_append, List.flatMap_singleton]
      simp only [bind, Except.bind, hwalk]
      rfl

theorem mem_filesIn {d p : Path} (hp : p ∈ h.filesIn d) : p = d.child sharedName ∨ p = d.child ownName := by
  unfold filesIn at hp
  split at hp <;> split at hp <;> simp_all

end Host

end Legible
