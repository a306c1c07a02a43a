import Legible.Format.Locator
import Mathlib.Data.List.Induction
/-!
# Which formatter is found, and when it is looked for

A search looks in a fixed order up to the first hit (`Locator.Finds`), and its answer is kept, "there is none" like any
other, until it is forgotten. So whatever happens to a locator and to the machine: each question is answered as the
first one since the last reset was, on the machine as it was then, and only that one looks.
-/

namespace Legible

/-- A use of a locator, or a change of the machine that it looks at. -/
inductive LocatorUse where
  | locate
  | reset
  | change (which : Which)

/-- A locator and the machine. -/
structure Site where
  locator : Locator
  which : Which

namespace Site

/-- The answer to a question, with the looks that it takes. -/
def ask (s : Site) : Option Command × List Lookup :=
  let (found, _, looks) := s.locator.locate s.which
  (found, looks)

/-- The site behind a use. -/
def use (s : Site) : LocatorUse → Site
  | .locate => { s with locator := (s.locator.locate s.which).2.1 }
  | .reset => { s with locator := s.locator.reset }
  | .change which => { s with which }

/-- The site after some uses. -/
def after (s : Site) (us : List LocatorUse) : Site := us.foldl use s

theorem after_append (s : Site) (us vs : List LocatorUse) : s.after (us ++ vs) = (s.after us).after vs :=
  List.foldl_append

@[simp] theorem after_snoc (s : Site) (us : List LocatorUse) (u : LocatorUse) :
    s.after (us ++ [u]) = (s.after us).use u :=
  after_append ..

end Site

namespace Locator

/-! ## One search -/

/-- The order of the looks: for the formatter in each directory and on the search path, then for its daemon. -/
theorem plan_eq (l : Locator) :
    l.plan = l.directories.map (fun d => ⟨"prettier", some d.text⟩) ++ [⟨"prettier", none⟩] ++
      l.directories.map (fun d => ⟨"prettierd", some d.text⟩) ++ [⟨"prettierd", none⟩] := by
  simp [plan, Command.formatter, Command.daemon]

/-- The look finds nothing, or an empty text. -/
def Misses (which : Which) (k : Lookup) : Prop := ∀ t, which k = some t → t = []

/-- No executable is fixed, or an empty one. -/
def IsOpen (l : Locator) : Prop := ∀ t, l.fixed = some t → t = []

/-- What a search finds, and the looks that it takes for it. -/
inductive Finds (which : Which) (l : Locator) : Option Command → List Lookup → Prop
  /-- A fixed executable is taken without a look. -/
  | fixed {t} (ht : l.fixed = some t) (hne : t ≠ []) : Finds which l (some (.ofExecutable t)) []
  /-- The first look that does not miss is the last one. -/
  | hit {before k behind t} (hopen : l.IsOpen) (hplan : l.plan = before ++ k :: behind)
      (hmiss : ∀ b ∈ before, Misses which b) (ht : which k = some t) (hne : t ≠ []) :
      Finds which l (some (.ofExecutable t)) (before ++ [k])
  /-- All looks miss. -/
  | nothing (hopen : l.IsOpen) (hmiss : ∀ k ∈ l.plan, Misses which k) : Finds which l none l.plan

theorem hit?_eq_some_iff {which : Which} {k : Lookup} {t : Text} :
    hit? which k = some t ↔ which k = some t ∧ t ≠ [] := by
  simp [hit?, Option.filter_eq_some_iff]

theorem hit?_eq_none_iff {which : Which} {k : Lookup} : hit? which k = none ↔ Misses which k := by
  simp [hit?, Option.filter_eq_none_iff, Misses]

/-- Looks that miss are made and come to nothing. -/
theorem firstHit_append {which : Which} {ks : List Lookup} (h : ∀ k ∈ ks, Misses which k) (rest : List Lookup) :
    firstHit which (ks ++ rest) = ((firstHit which rest).1, ks ++ (firstHit which rest).2) := by
  induction ks with
  | nil => rfl
  | cons k ks ih =>
    obtain ⟨hk, hks⟩ := List.forall_mem_cons.mp h
    simp [firstHit, hit?_eq_none_iff.mpr hk, ih hks]

/-- A search finds one answer, by one row of looks. -/
theorem finds_iff {which : Which} {l : Locator} {found : Option Command} {looks : List Lookup} :
    Finds which l found looks ↔ l.search which = (found, looks) := by
  have hopen : l.IsOpen ↔ (l.fixed.filter fun t => !t.isEmpty) = none := by
    simp [IsOpen, Option.filter_eq_none_iff]
  constructor
  · intro h
    cases h with
    | @fixed t ht hne =>
      have hfixed : (l.fixed.filter fun t => !t.isEmpty) = some t :=
        Option.filter_eq_some_iff.mpr ⟨ht, by simpa using hne⟩
      simp [search, hfixed]
    | @hit before k behind t ho hplan hmiss ht hne =>
      have hfirst : firstHit which l.plan = (some t, before ++ [k]) := by
        rw [hplan, firstHit_append hmiss]
        simp [firstHit, hit?_eq_some_iff.mpr ⟨ht, hne⟩]
      simp [search, hopen.mp ho, hfirst]
    | nothing ho hmiss =>
      have hfirst : firstHit which l.plan = (none, l.plan) := by
        simpa [firstHit] using firstHit_append hmiss []
      simp [search, hopen.mp ho, hfirst]
  · intro h
    cases hfixed : l.fixed.filter fun t => !t.isEmpty with
    | some t =>
      obtain ⟨ht, hne⟩ := Option.filter_eq_some_iff.mp hfixed
      simp only [search, hfixed, Prod.mk.injEq] at h
      obtain ⟨rfl, rfl⟩ := h
      exact .fixed ht (by simpa using hne)
    | none =>
      have ho := hopen.mpr hfixed
      simp only [search, hfixed, Prod.mk.injEq] at h
      cases hfind : l.plan.find? fun k => (hit? which k).isSome with
      | some k =>
        obtain ⟨hk, before, behind, hplan, hbefore⟩ := List.find?_eq_some_iff_append.mp hfind
        obtain ⟨t, hk⟩ := Option.isSome_iff_exists.mp hk
        have hmiss : ∀ b ∈ before, Misses which b := fun b hb => hit?_eq_none_iff.mp (by simpa using hbefore b hb)
        rw [hplan, firstHit_append hmiss] at h
        obtain ⟨rfl, rfl⟩ := h
        obtain ⟨ht, hne⟩ := hit?_eq_some_iff.mp hk
        simpa [firstHit, hk] using Finds.hit ho hplan hmiss ht hne
      | none =>
        have hmiss : ∀ k ∈ l.plan, Misses which k := fun k hk =>
          hit?_eq_none_iff.mp (by simpa using List.find?_eq_none.mp hfind k hk)
        have hfirst : firstHit which l.plan = (none, l.plan) := by
          simpa [firstHit] using firstHit_append hmiss []
        rw [hfirst] at h
        obtain ⟨rfl, rfl⟩ := h
        exact .nothing ho hmiss

end Locator

/-! ## Any uses -/

/-- Nothing was asked at all, or nothing since the last reset. -/
def IsUnasked (us : List LocatorUse) : Prop :=
  .locate ∉ us ∨ ∃ before since, us = before ++ .reset :: since ∧ .locate ∉ since

/-- The first question since the last reset came behind these uses. -/
def IsFirstAsked (us first : List LocatorUse) : Prop :=
  ∃ since, us = first ++ .locate :: since ∧ IsUnasked first ∧ .reset ∉ since

namespace IsUnasked

variable {us : List LocatorUse}

theorem append {vs : List LocatorUse} (h : IsUnasked us) (hvs : .locate ∉ vs) : IsUnasked (us ++ vs) := by
  rcases h with h | ⟨before, since, rfl, h⟩
  · exact .inl (by simp [h, hvs])
  · exact .inr ⟨before, since ++ vs, by simp, by simp [h, hvs]⟩

end IsUnasked

/-- Every question is the first one since the last reset, or there was a first one. -/
theorem unasked_or_firstAsked (us : List LocatorUse) : IsUnasked us ∨ ∃ first, IsFirstAsked us first := by
  induction us using List.reverseRecOn with
  | nil => exact .inl (.inl (by simp))
  | append_singleton us u ih =>
    cases u with
    | reset => exact .inl (.inr ⟨us, [], rfl, by simp⟩)
    | locate =>
      rcases ih with h | ⟨first, since, rfl, hfirst, hsince⟩
      · exact .inr ⟨us, [], rfl, h, by simp⟩
      · exact .inr ⟨first, since ++ [.locate], by simp, hfirst, by simp [hsince]⟩
    | change which =>
      rcases ih with h | ⟨first, since, rfl, hfirst, hsince⟩
      · exact .inl (h.append (by simp))
      · exact .inr ⟨first, since ++ [.change which], by simp, hfirst, by simp [hsince]⟩

namespace Site

/-- Uses change what a locator remembers, and nothing else about it. -/
theorem reset_after (s : Site) (us : List LocatorUse) : (s.after us).locator.reset = s.locator.reset := by
  induction us using List.reverseRecOn with
  | nil => rfl
  | append_singleton us u ih =>
    rw [after_snoc, ← ih]
    cases u with
    | reset | change => rfl
    | locate =>
      simp only [use, Locator.locate]
      split <;> rfl

/-- Where nothing is asked, a locator without an answer stays as it is. -/
theorem locator_after_of_not_mem {s : Site} (hs : s.locator.memo = none) {us : List LocatorUse} (h : .locate ∉ us) :
    (s.after us).locator = s.locator := by
  induction us using List.reverseRecOn with
  | nil => rfl
  | append_singleton us u ih =>
    obtain ⟨hus, hu⟩ := not_or.mp (mt List.mem_append.mpr h)
    rw [after_snoc]
    cases u with
    | locate => simp at hu
    | change => exact ih hus
    | reset =>
      simp only [use, ih hus, Locator.reset, ← hs]

theorem locator_after_of_unasked {s : Site} (hs : s.locator.memo = none) {us : List LocatorUse} (h : IsUnasked us) :
    (s.after us).locator = s.locator := by
  rcases h with h | ⟨before, since, rfl, h⟩
  · exact locator_after_of_not_mem hs h
  · have hreset : ((s.after before).use .reset).locator = s.locator := by
      have h := reset_after s before
      rw [use, h, Locator.reset, ← hs]
    have hsnoc : s.after (before ++ .reset :: since) = ((s.after before).use .reset).after since := by
      simp [after]
    rw [hsnoc, locator_after_of_not_mem (by rw [hreset, hs]) h, hreset]

/-- The answer to the first question is remembered until it is forgotten. -/
theorem memo_after_of_firstAsked {s : Site} (hs : s.locator.memo = none) {us first : List LocatorUse}
    (h : IsFirstAsked us first) : (s.after us).locator.memo = some (s.after first).ask.1 := by
  obtain ⟨since, rfl, hfirst, hsince⟩ := h
  induction since using List.reverseRecOn with
  | nil =>
    have hmemo : (s.after first).locator.memo = none := by rw [locator_after_of_unasked hs hfirst, hs]
    rw [after_snoc]
    simp [use, ask, Locator.locate, hmemo]
  | append_singleton since u ih =>
    obtain ⟨hbefore, hu⟩ := not_or.mp (mt List.mem_append.mpr hsince)
    have hmemo := ih hbefore
    rw [← List.cons_append, ← List.append_assoc, after_snoc]
    cases u with
    | reset => simp at hu
    | change => exact hmemo
    | locate => simp only [use, Locator.locate, hmemo]

end Site

/-- Each question to a locator is answered as the first one since the last reset was, by the search on the machine as it
was then, and only that first one looks. -/
theorem first_search_answers_until_reset (fixed : Option Text) (directories : List Path) (which : Which)
    (us : List LocatorUse) :
    let l : Locator := { fixed, directories }
    let s : Site := ⟨l, which⟩
    (l.plan = directories.map (fun d => ⟨"prettier", some d.text⟩) ++ [⟨"prettier", none⟩] ++
      directories.map (fun d => ⟨"prettierd", some d.text⟩) ++ [⟨"prettierd", none⟩]) ∧
    (IsUnasked us ∨ ∃ first, IsFirstAsked us first) ∧
    (IsUnasked us → ∀ found looks,
      (s.after us).ask = (found, looks) ↔ Locator.Finds (s.after us).which l found looks) ∧
    ∀ first, IsFirstAsked us first → IsUnasked first ∧ (s.after us).ask = ((s.after first).ask.1, []) := by
  intro l s
  refine ⟨l.plan_eq, unasked_or_firstAsked us, ?_, ?_⟩
  · intro hus found looks
    have hlocator : (s.after us).locator = l := Site.locator_after_of_unasked rfl hus
    rw [Locator.finds_iff, Site.ask, hlocator]
    rfl
  · intro first hfirst
    have hmemo := Site.memo_after_of_firstAsked (s := s) rfl hfirst
    obtain ⟨_, _, hunasked, _⟩ := hfirst
    exact ⟨hunasked, by simp [Site.ask, Locator.locate, hmemo]⟩

/-- A daemon that is put on the search path after a search is not found before a reset. -/
theorem late_daemon_waits_for_reset :
    let s : Site := ⟨{ fixed := none, directories := [] }, fun _ => none⟩
    let installed : Which := fun k => if k = ⟨"prettierd", none⟩ then some "/bin/prettierd" else none
    let us := [.locate, .change installed]
    IsFirstAsked us [] ∧ (s.after us).ask = (none, []) ∧
      IsUnasked (us ++ [.reset]) ∧ (s.after (us ++ [.reset])).ask =
        (some ⟨"/bin/prettierd", true⟩, [⟨"prettier", none⟩, ⟨"prettierd", none⟩]) := by
  intro s installed us
  have hfirst : IsFirstAsked us [] := ⟨[.change installed], rfl, .inl (by simp), by simp⟩
  have hunasked : IsUnasked (us ++ [.reset]) := .inr ⟨us, [], rfl, by simp⟩
  obtain ⟨-, -, -, hkept⟩ := first_search_answers_until_reset none [] (fun _ => none) us
  obtain ⟨-, -, hsearch, -⟩ := first_search_answers_until_reset none [] (fun _ => none) (us ++ [.reset])
  refine ⟨hfirst, (hkept [] hfirst).2, hunasked, (hsearch hunasked _ _).mpr ?_⟩
  have hopen : s.locator.IsOpen := by simp [Locator.IsOpen, s]
  have hmiss : ∀ k ∈ [(⟨"prettier", none⟩ : Lookup)], Locator.Misses installed k := by
    intro k hk
    cases List.mem_singleton.mp hk
    exact Locator.hit?_eq_none_iff.mp (by decide)
  exact @Locator.Finds.hit installed s.locator [⟨"prettier", none⟩] ⟨"prettierd", none⟩ [] "/bin/prettierd" hopen rfl
    hmiss (by decide) (by decide)

end Legible
