import Legible.Json.Reader
import Mathlib.Tactic.Common
/-!
# Where reading JSON stops

A text can be refused for a number only where a whole number has more digits than are read
(`Json.exists_tooLong_of_parse`); all other refusals are about its form or its depth.
-/

namespace Legible.Json

/-- A reason to stop as the reader has it: of numbers it minds nothing but their length. -/
inductive Stop.IsFair : Stop → Prop
  | fault {f : Fault} {unread : Nat} : IsFair (.fault f unread)
  | tooLong {n : Nat} : Numeral.maxDigits < n → IsFair (.number (.tooLong n))
  | tooDeep {n : Nest} : IsFair (.tooDeep n)

variable {s : Stop}

theorem isFair_of_joinUnits {unit : Nat} {r : Text} (h : joinUnits unit r = .error s) : s.IsFair := by
  unfold joinUnits at h
  split at h
  · split at h
    · split at h
      · split at h
        · cases h
          exact .fault
        · split at h <;> cases h
      · cases h
    · cases h
  · cases h

theorem isFair_of_string {opened fuel : Nat} {read t : Text} (h : string opened fuel read t = .error s) :
    s.IsFair := by
  fun_induction string opened fuel read t with
  | case3 => cases h
  | case7 =>
    cases h
    exact isFair_of_joinUnits ‹joinUnits _ _ = _›
  | case8 => rename_i ih; exact ih h
  | case10 => rename_i ih; exact ih h
  | case11 => rename_i ih; exact ih h
  | _ =>
    cases h
    exact .fault

theorem isFair_of_number {t : Text} (h : number t = .error s) : s.IsFair := by
  unfold number at h
  -- the sign, the digits before a point and those behind it
  split at h
  split at h
  split at h
  · cases h
    exact .fault
  · split at h
    split at h
    · cases h
    · split at h
      · split at h
        · cases h
          exact .tooLong ‹_›
        · cases h
      · cases h

/-! ## Values, items and members

They are read by turns, each with less fuel; so far as the turns with less fuel stop for fair reasons, so does the
next one.
-/

section Turns

variable {fuel : Nat}

theorem isFair_of_value_succ (hitems : ∀ room before t s, items room fuel before t = .error s → s.IsFair)
    (hmembers : ∀ room before t s, members room fuel before t = .error s → s.IsFair) {room : Nat} {t : Text}
    (h : value room (fuel + 1) t = .error s) : s.IsFair := by
  cases t with
  | nil =>
    cases h
    exact .fault
  | cons c r =>
    rw [value] at h
    split at h
    · -- a string
      split at h
      · cases h
        exact isFair_of_string ‹_›
      · cases h
    · split at h
      · -- an object
        split at h
        · cases h
          exact .tooDeep
        · split at h
          · cases h
            exact .fault
          · split at h
            · cases h
            · exact hmembers _ _ _ _ h
      · split at h
        · -- an array
          split at h
          · cases h
            exact .tooDeep
          · split at h
            · cases h
              exact .fault
            · split at h
              · cases h
              · exact hitems _ _ _ _ h
        · split at h
          · cases h
          · exact isFair_of_number h

theorem isFair_of_items_succ (hvalue : ∀ room t s, value room fuel t = .error s → s.IsFair)
    (hitems : ∀ room before t s, items room fuel before t = .error s → s.IsFair) {room : Nat} {before : List Json}
    {t : Text} (h : items room (fuel + 1) before t = .error s) : s.IsFair := by
  rw [items] at h
  split at h
  · cases h
    exact hvalue _ _ _ ‹_›
  · split at h
    · cases h
      exact .fault
    · split at h
      · cases h
      · split at h
        · exact hitems _ _ _ _ h
        · cases h
          exact .fault

theorem isFair_of_members_succ (hvalue : ∀ room t s, value room fuel t = .error s → s.IsFair)
    (hmembers : ∀ room before t s, members room fuel before t = .error s → s.IsFair) {room : Nat}
    {before : List (Text × Json)} {t : Text} (h : members room (fuel + 1) before t = .error s) : s.IsFair := by
  cases t with
  | nil =>
    cases h
    exact .fault
  | cons q r =>
    rw [members] at h
    split at h
    · cases h
      exact .fault
    · split at h
      · cases h
        exact isFair_of_string ‹_›
      · split at h
        · cases h
          exact .fault
        · split at h
          · cases h
            exact .fault
          · split at h
            · cases h
              exact hvalue _ _ _ ‹_›
            · dsimp only at h
              split at h
              · cases h
                exact .fault
              · split at h
                · cases h
                · split at h
                  · exact hmembers _ _ _ _ h
                  · cases h
                    exact .fault

end Turns

theorem isFair_of_fuel (fuel : Nat) :
    (∀ room t s, value room fuel t = .error s → s.IsFair) ∧
    (∀ room before t s, items room fuel before t = .error s → s.IsFair) ∧
    (∀ room before t s, members room fuel before t = .error s → s.IsFair) := by
  induction fuel with
  | zero =>
    refine ⟨fun room t s h => ?_, fun room before t s h => ?_, fun room before t s h => ?_⟩ <;>
    · cases h
      exact .fault
  | succ fuel ih =>
    obtain ⟨hvalue, hitems, hmembers⟩ := ih
    exact ⟨fun _ _ _ => isFair_of_value_succ hitems hmembers, fun _ _ _ _ => isFair_of_items_succ hvalue hitems,
      fun _ _ _ _ => isFair_of_members_succ hvalue hmembers⟩

theorem isFair_of_value {room fuel : Nat} {t : Text} (h : value room fuel t = .error s) : s.IsFair :=
  (isFair_of_fuel fuel).1 room t s h

/-- A number that is not read has too many digits. -/
theorem exists_tooLong_of_parse {t : Text} {e : NumeralError} (h : parse t = .error (.number e)) :
    ∃ n, e = .tooLong n ∧ Numeral.maxDigits < n := by
  have hfair : ∀ {result : Except Stop (Json × Text)}, (∀ s, result = .error s → s.IsFair) →
      result = .error (.number e) → ∃ n, e = .tooLong n ∧ Numeral.maxDigits < n := by
    intro result hresult hnumber
    cases hresult _ hnumber with
    | tooLong hn => exact ⟨_, rfl, hn⟩
  unfold parse at h
  dsimp only at h
  split at h
  · cases h
  · cases h
    refine hfair (fun s hs => ?_) ‹_›
    split at hs
    · split at hs
      · cases hs
        exact .fault
      · exact isFair_of_value hs
    · cases hs
      exact .fault
  · cases h
  · split at h <;> cases h

end Legible.Json
