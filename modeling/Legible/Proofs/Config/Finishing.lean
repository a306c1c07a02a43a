import Legible.Config.Loose
import Legible.Proofs.Config.Effective
/-!
# Finished settings

To finish a draft is to settle each of its fields: what can be used is kept, all else takes its built-in value, and each
number out of range is told once (`Draft.settles_freeze`). What is settled stays so: finished settings that are taken as
a draft again and finished once more are the same, without another word (`Config.IsFinished.freeze_with`).
-/

namespace Legible

/-! ## Fields that are settled -/

namespace NumberField

/-- A finished number is in range: the value of the draft where that is in range, and else the built-in one. -/
structure Settles (n : NumberField) (d : Draft) (c : Config) : Prop where
  least_le : n.least ≤ n.ofConfig c
  kept : ∀ v, n.ofDraft d = some v → n.least ≤ v → (n.ofConfig c : Int) = v
  replaced : (∀ v, n.ofDraft d = some v → v < n.least) → n.ofConfig c = n.builtIn

end NumberField

/-- Finished settings are those of a draft. -/
structure Draft.Settles (d : Draft) (c : Config) : Prop where
  numbers : ∀ n ∈ NumberField.all, n.Settles d c
  formatterCmd : ∀ t, c.formatterCmd = some t ↔ d.formatterCmd = some t ∧ t ≠ []
  title : ∀ t, c.title = some t ↔ d.title = some t ∧ t ≠ []
  formatterArgs : c.formatterArgs = d.formatterArgs.getD Config.default.formatterArgs
  syncFormat : c.syncFormat = d.syncFormat.getD Config.default.syncFormat
  searchPaths : c.searchPaths = d.searchPaths.getD Config.default.searchPaths
  cacheEnabled : c.cacheEnabled = d.cacheEnabled.getD Config.default.cacheEnabled
  formatOnOpen : c.formatOnOpen = d.formatOnOpen.getD Config.default.formatOnOpen
  sources : c.sources = d.sources
  issues : c.issues = d.issues ++ NumberField.all.filterMap fun n =>
    (n.wrong? d).map fun v => Draft.rangeText n.name (Text.ofInt v) n.builtIn

/-- The built-in value of a number is in range, so the number that takes its place is. -/
theorem NumberField.settles_of_inRange {n : NumberField} {d : Draft} {c : Config} {issues : List Text}
    (hle : n.least ≤ n.builtIn) (hc : Draft.inRange n.name n.least n.builtIn (n.ofDraft d) = .ok (n.ofConfig c, issues)) :
    n.Settles d c := by
  obtain ⟨-, hvalue, -⟩ := (Draft.inRange_eq_ok_iff (Int.natCast_nonneg _)).mp hc
  constructor
  · cases hv : n.ofDraft d with
    | none =>
      rw [hv] at hvalue
      exact Int.ofNat_inj.mp hvalue ▸ hle
    | some v =>
      rw [hv, Option.map_some, Option.getD_some, repaired] at hvalue
      split at hvalue <;> omega
  · intro v hv hrange
    rw [← hvalue, hv, Option.map_some, Option.getD_some, repaired, if_pos hrange]
  · intro hall
    cases hv : n.ofDraft d with
    | none =>
      rw [hv] at hvalue
      exact (Int.ofNat_inj.mp hvalue).symm
    | some v =>
      rw [hv, Option.map_some, Option.getD_some, repaired, if_neg (Int.not_le.mpr (hall v hv))] at hvalue
      exact (Int.ofNat_inj.mp hvalue).symm

/-! ## Settings that are finished -/

/-- What holds of settings that are finished: their numbers are in range, and no text counts as unset. -/
structure Config.IsFinished (c : Config) : Prop where
  printWidth : 1 ≤ c.printWidth
  timeoutMs : 1 ≤ c.timeoutMs
  formatterCmd : ∀ t ∈ c.formatterCmd, t ≠ []
  title : ∀ t ∈ c.title, t ≠ []

namespace Draft

variable {d : Draft} {c : Config}

theorem settles_of_freeze (h : d.freeze = .ok c) : d.Settles c := by
  obtain ⟨⟨width, i⟩, hi, h⟩ := bind_eq_ok_iff.mp h
  obtain ⟨⟨timeout, j⟩, hj, h⟩ := bind_eq_ok_iff.mp h
  obtain ⟨⟨entries, k⟩, hk, h⟩ := bind_eq_ok_iff.mp h
  cases h
  obtain ⟨-, -, rfl⟩ := (inRange_eq_ok_iff (by decide)).mp hi
  obtain ⟨-, -, rfl⟩ := (inRange_eq_ok_iff (by decide)).mp hj
  obtain ⟨-, -, rfl⟩ := (inRange_eq_ok_iff (by decide)).mp hk
  have hissues (n : NumberField) : rangeIssues n.name n.least n.builtIn (n.ofDraft d) =
      ((n.wrong? d).map fun v => rangeText n.name (Text.ofInt v) n.builtIn).toList := by
    rw [rangeIssues, NumberField.wrong?]
    cases (n.ofDraft d).filter (· < (n.least : Int)) <;> rfl
  exact {
    numbers := by
      simp only [NumberField.all, List.forall_mem_cons]
      exact ⟨NumberField.settles_of_inRange (by decide) hi, NumberField.settles_of_inRange (by decide) hj,
        NumberField.settles_of_inRange (by decide) hk, List.forall_mem_nil _⟩
    formatterCmd := fun t => by simp [Option.filter_eq_some_iff]
    title := fun t => by simp [Option.filter_eq_some_iff]
    formatterArgs := rfl
    syncFormat := rfl
    searchPaths := rfl
    cacheEnabled := rfl
    formatOnOpen := rfl
    sources := rfl
    issues := by
      simp only [List.filterMap_eq_flatMap_toList, ← hissues, NumberField.all, List.flatMap_cons, List.flatMap_nil,
        List.append_assoc, List.append_nil]
      rfl }

theorem Settles.isFinished (h : d.Settles c) : c.IsFinished := by
  have hnumbers := h.numbers
  simp only [NumberField.all, List.forall_mem_cons] at hnumbers
  exact {
    printWidth := hnumbers.1.least_le
    timeoutMs := hnumbers.2.1.least_le
    formatterCmd := fun t ht => ((h.formatterCmd t).mp ht).2
    title := fun t ht => ((h.title t).mp ht).2 }

theorem isFinished_of_freeze (h : d.freeze = .ok c) : c.IsFinished := (settles_of_freeze h).isFinished

end Draft

/-- Finished settings are not changed when they are finished once more; sources and issues stay as they are. -/
theorem Config.IsFinished.freeze_with {c : Config} (hc : c.IsFinished) (sources : List ConfigSource)
    (issues : List Text) : { c.thaw with sources, issues }.freeze = .ok { c with sources, issues } := by
  have hset {t : Option Text} (ht : ∀ u ∈ t, u ≠ []) : (t.filter fun u => !u.isEmpty) = t := by
    cases t with
    | none => rfl
    | some u => exact Option.filter_some_pos (by simpa using ht u rfl)
  have hinRange {least : Int} {n : Nat} (hn : least ≤ n) (name : Text) (fallback : Nat) :
      Draft.inRange name least fallback (some (n : Int)) = .ok (n, []) := Draft.inRange_of_le hn
  have hwidth := hinRange (Int.ofNat_le.mpr hc.printWidth) "print_width" Config.default.printWidth
  have htimeout := hinRange (Int.ofNat_le.mpr hc.timeoutMs) "timeout_ms" Config.default.timeoutMs
  have hentries := hinRange (Int.natCast_nonneg c.cacheMaxEntries) "max_entries" Config.default.cacheMaxEntries
  rw [Int.natCast_one] at hwidth htimeout
  refine bind_eq_ok_iff.mpr ⟨_, hwidth, bind_eq_ok_iff.mpr ⟨_, htimeout, bind_eq_ok_iff.mpr ⟨_, hentries, ?_⟩⟩⟩
  simp only [Config.thaw, hset hc.formatterCmd, hset hc.title, Option.getD_some, List.append_nil]
  rfl

namespace LooseDraft

variable {d : Draft} {made : Text}

/-- A width and a deadline out of range are told in this order, behind what was told before. An empty command is none,
and no entries at all are in range. -/
example :
    let d : Draft := {
      formatterCmd := some [], printWidth := some 0, timeoutMs := some (-5), cacheMaxEntries := some 0
      issues := ["before"] }
    d.freeze.toOption = some { Config.default with
      cacheMaxEntries := 0
      issues := [
        "before", "Invalid print_width=0; using default 60", "Invalid timeout_ms=-5; using default 3000"] } := by
  decide +kernel

end LooseDraft

end Legible
