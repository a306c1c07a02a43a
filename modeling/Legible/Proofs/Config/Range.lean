import Legible.Config.Basic
import Legible.Proofs.Results
/-!
# Numbers in range

A number of the settings is kept where it is in range, and else its built-in value takes its place and that is told
(`Draft.inRange_eq_ok_iff`). Nothing can be told of a number with too many digits, and a draft that has such a number out
of range is not finished (`Draft.freeze_eq_error_iff`).
-/

namespace Legible

/-- A number in range, or the built-in one for it. -/
def repaired (least : Int) (builtIn : Nat) (v : Int) : Int := if least ≤ v then v else builtIn

/-- What is said of a number out of range. -/
def rangeIssues (name : Text) (least : Int) (builtIn : Nat) (v : Option Int) : List Text :=
  (v.filter (· < least)).toList.map fun v => Draft.rangeText name (Text.ofInt v) builtIn

/-- A number of the settings: its name in messages, the least value in range, the built-in value, and where it stands in
a draft and in finished settings. -/
structure NumberField where
  name : Text
  least : Nat
  builtIn : Nat
  ofDraft : Draft → Option Int
  ofConfig : Config → Nat

namespace NumberField

/-- The numbers of the settings in the order in which they are settled. -/
def all : List NumberField :=
  [⟨"print_width", 1, Config.default.printWidth, Draft.printWidth, Config.printWidth⟩,
   ⟨"timeout_ms", 1, Config.default.timeoutMs, Draft.timeoutMs, Config.timeoutMs⟩,
   ⟨"max_entries", 0, Config.default.cacheMaxEntries, Draft.cacheMaxEntries, Config.cacheMaxEntries⟩]

/-- The value of a draft that is out of range. -/
def wrong? (n : NumberField) (d : Draft) : Option Int := (n.ofDraft d).filter (· < n.least)

end NumberField

namespace Draft

variable {name : Text} {least : Int} {fallback n : Nat} {value : Option Int} {issues : List Text} {e : NumeralError}

theorem rangeIssue_eq_error_iff {v : Int} :
    rangeIssue name v fallback = .error e ↔ e = .tooWide ∧ Numeral.isTooWide v = true := by
  rw [rangeIssue, map_eq_error_iff, Numeral.shown_eq_error_iff]

theorem rangeIssue_eq_ok_iff {v : Int} {t : Text} : rangeIssue name v fallback = .ok t ↔
    Numeral.isTooWide v = false ∧ rangeText name (Text.ofInt v) fallback = t := by
  simp only [rangeIssue, map_eq_ok_iff, Numeral.shown_eq_ok_iff, and_assoc, exists_and_left, exists_eq_left]

theorem inRange_of_le {v : Int} (hv : least ≤ v) : inRange name least fallback (some v) = .ok (v.toNat, []) := if_pos hv

theorem inRange_of_lt {v : Int} (hv : v < least) :
    inRange name least fallback (some v) = (rangeIssue name v fallback).map fun t => (fallback, [t]) :=
  if_neg (Int.not_le.mpr hv)

theorem wrong_of_le {v : Int} (hv : least ≤ v) : (some v).filter (· < least) = none :=
  Option.filter_some_neg (by simpa using hv)

theorem wrong_of_lt {v : Int} (hv : v < least) : (some v).filter (· < least) = some v :=
  Option.filter_some_pos (by simpa using hv)

theorem inRange_eq_error_iff : inRange name least fallback value = .error e ↔
    e = .tooWide ∧ ∃ v, value.filter (· < least) = some v ∧ Numeral.isTooWide v = true := by
  cases value with
  | none => exact iff_of_false nofun fun ⟨_, _, h, _⟩ => nomatch h
  | some v =>
    rcases Int.lt_or_le v least with hv | hv
    · rw [inRange_of_lt hv, wrong_of_lt hv, map_eq_error_iff, rangeIssue_eq_error_iff]
      simp
    · rw [inRange_of_le hv, wrong_of_le hv]
      exact iff_of_false nofun fun ⟨_, _, h, _⟩ => nomatch h

theorem inRange_eq_ok_iff (hleast : 0 ≤ least) : inRange name least fallback value = .ok (n, issues) ↔
    (∀ v, value.filter (· < least) = some v → Numeral.isTooWide v = false) ∧
      (value.map (repaired least fallback)).getD fallback = n ∧ rangeIssues name least fallback value = issues := by
  cases value with
  | none =>
    have hnone : inRange name least fallback none = .ok (fallback, []) := rfl
    rw [hnone, Except.ok.injEq, Prod.mk.injEq]
    exact ⟨fun ⟨hn, hi⟩ => ⟨nofun, Int.ofNat_inj.mpr hn, hi⟩, fun ⟨_, hn, hi⟩ => ⟨Int.ofNat_inj.mp hn, hi⟩⟩
  | some v =>
    rcases Int.lt_or_le v least with hv | hv
    · rw [inRange_of_lt hv, rangeIssues, wrong_of_lt hv, map_eq_ok_iff]
      have hrepaired : repaired least fallback v = fallback := if_neg (Int.not_le.mpr hv)
      constructor
      · rintro ⟨t, ht, heq⟩
        obtain ⟨hwide, rfl⟩ := rangeIssue_eq_ok_iff.mp ht
        cases heq
        exact ⟨fun _ h => Option.some.inj h ▸ hwide, hrepaired, rfl⟩
      · rintro ⟨hwide, hn, rfl⟩
        refine ⟨_, rangeIssue_eq_ok_iff.mpr ⟨hwide v rfl, rfl⟩, ?_⟩
        rw [Int.ofNat_inj.mp (hrepaired.symm.trans hn)]
        rfl
    · rw [inRange_of_le hv, rangeIssues, wrong_of_le hv]
      have hcast : v.toNat = n ↔ v = n := by omega
      simp [repaired, hv, hcast]

/-! ## Drafts that are not finished -/

/-- A number out of range has too many digits to be told. -/
def HasUntellable (d : Draft) : Prop :=
  ∃ n ∈ NumberField.all, ∃ v, n.wrong? d = some v ∧ Numeral.isTooWide v = true

theorem hasUntellable_iff {d : Draft} : d.HasUntellable ↔
    (∃ v, d.printWidth.filter (· < 1) = some v ∧ Numeral.isTooWide v = true) ∨
      (∃ v, d.timeoutMs.filter (· < 1) = some v ∧ Numeral.isTooWide v = true) ∨
      ∃ v, d.cacheMaxEntries.filter (· < 0) = some v ∧ Numeral.isTooWide v = true := by
  simp [HasUntellable, NumberField.all, NumberField.wrong?]

theorem freeze_eq_error_iff {d : Draft} : d.freeze = .error e ↔ e = .tooWide ∧ d.HasUntellable := by
  rw [hasUntellable_iff]
  refine bind_eq_error_iff_or (fun _ => inRange_eq_error_iff) ?_
  rintro ⟨printWidth, i⟩ e
  refine bind_eq_error_iff_or (fun _ => inRange_eq_error_iff) ?_
  rintro ⟨timeoutMs, j⟩ e
  refine (bind_eq_error_iff_or (Q := False) (fun _ => inRange_eq_error_iff) ?_).trans (by rw [or_false])
  rintro ⟨cacheMaxEntries, k⟩ e
  exact iff_of_false nofun fun h => h.2

theorem exists_freeze_eq_ok_iff {d : Draft} : (∃ c, d.freeze = .ok c) ↔ ¬ d.HasUntellable := by
  cases h : d.freeze with
  | ok c => exact iff_of_true ⟨c, rfl⟩ fun hnot => nomatch h.symm.trans (freeze_eq_error_iff.mpr ⟨rfl, hnot⟩)
  | error e => exact iff_of_false nofun (not_not_intro (freeze_eq_error_iff.mp h).2)

end Draft

end Legible
