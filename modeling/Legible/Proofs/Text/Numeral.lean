import Legible.Proofs.Text.Newlines
import Legible.Text.Case
import Legible.Text.Numeral
import Mathlib.Data.List.Forall2
import Mathlib.Tactic.Common
/-!
# Digits and numerals

A text of digits in the widest sense is a numeral only if all of them are decimal digits and there are not too many
(`Numeral.parse_of_unreadable`, `Numeral.parse_of_not_unreadable`). Whether a text is one of digits does not depend on
the case of its letters, as no letter has a digit for a capital.
-/

namespace Legible

namespace CodePoint

variable {c d : CodePoint}

/-! ## Digits among other characters -/

theorem isDigit_of_mem {ns : List Nat} (hns : ∀ n ∈ ns, ∀ hn : n < 0x110000, isDigit ⟨n, hn⟩ = false)
    (hc : c.val ∈ ns) : c.isDigit = false := hns c.val hc c.lt

theorem isDigit_of_isBlank (h : c.isBlank = true) : c.isDigit = false := by
  have hmem : c.val ∈ List.range' 9 5 ++ List.range' 28 5 ++ [0x85, 0xA0, 0x1680] ++ List.range' 0x2000 11 ++
      [0x2028, 0x2029, 0x202F, 0x205F, 0x3000] := by
    simp only [isBlank, Bool.or_eq_true, Bool.and_eq_true, decide_eq_true_eq] at h
    simp only [List.mem_append, List.mem_range'_1, List.mem_cons, List.not_mem_nil, or_false]
    omega
  exact isDigit_of_mem (by decide +kernel) hmem

theorem isDigit_of_isLetter (h : c.isLetter = true) : c.isDigit = false := by
  have hmem : c.val ∈ List.range' 65 26 ++ List.range' 97 26 := by
    have hends : 'A'.toNat = 65 ∧ 'Z'.toNat = 90 ∧ 'a'.toNat = 97 ∧ 'z'.toNat = 122 := ⟨rfl, rfl, rfl, rfl⟩
    simp only [isLetter, isUpper, isLower, within, Bool.or_eq_true, Bool.and_eq_true, decide_eq_true_eq] at h
    simp only [List.mem_append, List.mem_range'_1]
    omega
  exact isDigit_of_mem (by decide +kernel) hmem

theorem ne_of_isDigit (hc : c.isDigit = true) (hd : d.isDigit = false) : c ≠ d := by
  rintro rfl
  exact Bool.false_ne_true (hd.symm.trans hc)

theorem isDigit_of_decimalValue? {v : Nat} (h : c.decimalValue? = some v) : c.isDigit = true := by
  simp [isDigit, h]

theorem upperForm_of_isDigit (h : c.isDigit = true) : c.upperForm = [c] := by
  have hlower : ¬ c.isLower = true := fun hlower => by
    rw [isDigit_of_isLetter (by simp [isLetter, hlower])] at h
    cases h
  have hother : c.val ∉ [0xDF, 0x131, 0x17F, 0xFB00, 0xFB01, 0xFB02, 0xFB03, 0xFB04, 0xFB05, 0xFB06] := fun hmem => by
    rw [isDigit_of_mem (by decide +kernel) hmem] at h
    cases h
  rw [upperForm, if_neg hlower]
  split <;> simp_all

/-- The capital form of a small ASCII letter is a letter. -/
theorem isLetter_upperForm (h : c.isLower = true) : ∀ d ∈ c.upperForm, d.isLetter = true := by
  have hends : 'A'.toNat = 65 ∧ 'Z'.toNat = 90 ∧ 'a'.toNat = 97 ∧ 'z'.toNat = 122 := ⟨rfl, rfl, rfl, rfl⟩
  rw [upperForm, if_pos h]
  simp only [isLower, within, Bool.and_eq_true, decide_eq_true_eq] at h
  intro d hd
  have hval : d.val = c.val - 32 := by
    rw [List.mem_singleton.mp hd]
    exact val_ofNat (by omega)
  simp only [isLetter, isUpper, isLower, within, Bool.or_eq_true, Bool.and_eq_true, decide_eq_true_eq]
  omega

/-- A digit is the capital form of itself alone. -/
theorem eq_of_mem_upperForm (hmem : d ∈ c.upperForm) (hd : d.isDigit = true) : d = c := by
  have hletters : ∀ t ∈ (["SS", "I", "FF", "FI", "FL", "FFI", "FFL", "ST", "S"] : List Text), ∀ d ∈ t,
      d.isDigit = false := by decide +kernel
  by_cases hlower : c.isLower = true
  · rw [isDigit_of_isLetter (isLetter_upperForm hlower d hmem)] at hd
    cases hd
  · rw [upperForm, if_neg hlower] at hmem
    split at hmem
    case h_11 => exact List.mem_singleton.mp hmem
    all_goals
      rw [hletters _ (by simp) d hmem] at hd
      cases hd

theorem upperForm_ne_nil (c : CodePoint) : c.upperForm ≠ [] := by
  unfold upperForm
  split
  · simp
  · split <;> simp [Text.ofString]

end CodePoint

namespace Text

/-- The text has digits in the widest sense and nothing else. -/
structure IsDigits (t : Text) : Prop where
  ne_nil : t ≠ []
  digits : ∀ c ∈ t, c.isDigit = true

instance (t : Text) : Decidable t.IsDigits :=
  decidable_of_iff (t ≠ [] ∧ ∀ c ∈ t, c.isDigit = true) ⟨fun h => ⟨h.1, h.2⟩, fun h => ⟨h.1, h.2⟩⟩

theorem upper_of_isDigits {t : Text} (h : t.IsDigits) : t.upper = t := by
  have hforms : t.flatMap CodePoint.upperForm = t.flatMap fun c => [c] :=
    List.flatMap_congr fun c hc => CodePoint.upperForm_of_isDigit (h.digits c hc)
  rw [upper, hforms, List.flatMap_singleton']

theorem isDigits_upper_iff {t : Text} : t.upper.IsDigits ↔ t.IsDigits := by
  constructor
  · intro h
    refine ⟨fun hnil => h.ne_nil (by rw [hnil]; rfl), fun c hc => ?_⟩
    obtain ⟨d, hd⟩ := List.exists_mem_of_ne_nil _ c.upperForm_ne_nil
    have hdigit := h.digits d (List.mem_flatMap.mpr ⟨c, hc, hd⟩)
    rwa [CodePoint.eq_of_mem_upperForm hd hdigit] at hdigit
  · intro h
    rw [upper_of_isDigits h]
    exact h

end Text

namespace Numeral

variable {t : Text} {ds : List Nat} {n : Nat}

/-! ## Numerals of digits alone -/

/-- The number that decimal digits stand for. -/
inductive Denotes (t : Text) : Nat → Prop
  | digits {ds : List Nat} : t ≠ [] → List.Forall₂ (fun c v => c.decimalValue? = some v) t ds → Denotes t (value ds)

/-- The text is one of digits, and yet no numeral: some of them are no decimal digits, or there are too many. -/
structure Unreadable (t : Text) : Prop extends Text.IsDigits t where
  fault : (∃ c ∈ t, c.decimalValue? = none) ∨ maxDigits < t.length

/-- What is read of digits are decimal ones at the start. -/
theorem exists_of_leading? {rest : Text} (ht : ∀ c ∈ t, c.isDigit = true) (h : leading? t = some (ds, rest)) :
    ∃ front, front ++ rest = t ∧ List.Forall₂ (fun c v => CodePoint.decimalValue? c = some v) front ds := by
  fun_induction leading? t generalizing ds with
  | case1 => cases h
  | case2 c =>
    obtain ⟨v, hv, h⟩ := Option.map_eq_some_iff.mp h
    cases h
    exact ⟨[c], rfl, .cons hv .nil⟩
  | case3 => cases h
  | case4 c r v hv =>
    -- an underscore is no digit
    have hdigit := ht _ (List.mem_cons_of_mem _ List.mem_cons_self)
    exact absurd hdigit (by decide)
  | case5 c d r v hv hd hdecimal ih =>
    obtain ⟨⟨vs, rest'⟩, hread, h⟩ := Option.map_eq_some_iff.mp h
    cases h
    obtain ⟨front, hfront, hvalues⟩ := ih (fun c hc => ht c (List.mem_cons_of_mem _ hc)) hread
    exact ⟨c :: front, by rw [List.cons_append, hfront], .cons hv hvalues⟩
  | case6 c d r v hv hd hdecimal =>
    cases h
    exact ⟨[c], rfl, .cons hv .nil⟩

theorem leading?_of_forall₂ (hne : t ≠ []) (h : List.Forall₂ (fun c v => CodePoint.decimalValue? c = some v) t ds) :
    leading? t = some (ds, []) := by
  induction h with
  | nil => exact absurd rfl hne
  | @cons c v r vs hv hrest ih =>
    cases hrest with
    | nil => simp [leading?, hv]
    | @cons d w r ws hw hrest =>
      have hd : d ≠ CodePoint.ofChar '_' := CodePoint.ne_of_isDigit (CodePoint.isDigit_of_decimalValue? hw) (by decide)
      rw [leading?, hv]
      simp only [hd, if_false, hw, Option.isSome_some, if_true, ih (List.cons_ne_nil _ _), Option.map_some]

theorem isMargin_of_isDigit {c : CodePoint} (h : c.isDigit = true) : isMargin c = false := by
  rw [isMargin, Bool.and_eq_false_imp]
  intro hblank
  rw [CodePoint.isDigit_of_isBlank hblank] at h
  cases h

/-- Nothing stands around a text of digits. -/
theorem parse_of_isDigits (h : t.IsDigits) : parse t = match leading? t with
    | none => .error (.malformed t)
    | some (ds, rest) =>
      if maxDigits < ds.length then .error (.tooLong ds.length)
      else if rest.all isMargin then .ok (value ds)
      else .error (.malformed t) := by
  obtain ⟨c, r, rfl⟩ := List.exists_cons_of_ne_nil h.ne_nil
  have hc := h.digits c List.mem_cons_self
  have hminus : c ≠ CodePoint.ofChar '-' := CodePoint.ne_of_isDigit hc (by decide)
  have hplus : c ≠ CodePoint.ofChar '+' := CodePoint.ne_of_isDigit hc (by decide)
  have hdrop : (c :: r).dropWhile isMargin = c :: r := List.dropWhile_cons_of_neg (by simp [isMargin_of_isDigit hc])
  rw [parse, hdrop]
  cases hread : leading? (c :: r) with
  | none => simp only [hminus, hplus, if_false, hread]
  | some found =>
    obtain ⟨ds, rest⟩ := found
    simp only [hminus, hplus, if_false, Bool.false_eq_true, hread]

theorem exists_values (h : ∀ c ∈ t, c.decimalValue? ≠ none) :
    ∃ ds, List.Forall₂ (fun c v => CodePoint.decimalValue? c = some v) t ds := by
  induction t with
  | nil => exact ⟨[], .nil⟩
  | cons c r ih =>
    obtain ⟨hc, hr⟩ := List.forall_mem_cons.mp h
    obtain ⟨v, hv⟩ := Option.ne_none_iff_exists'.mp hc
    obtain ⟨vs, hvs⟩ := ih hr
    exact ⟨v :: vs, .cons hv hvs⟩

theorem exists_value {c : CodePoint} (h : List.Forall₂ (fun c v => CodePoint.decimalValue? c = some v) t ds)
    (hc : c ∈ t) : ∃ v, c.decimalValue? = some v := by
  induction h with
  | nil => cases hc
  | cons hv _ ih =>
    rcases List.mem_cons.mp hc with rfl | hc
    · exact ⟨_, hv⟩
    · exact ih hc

/-- What is no numeral is refused. -/
theorem parse_of_unreadable (h : Unreadable t) : ∃ e, parse t = .error e := by
  rw [parse_of_isDigits h.toIsDigits]
  split
  · exact ⟨_, rfl⟩
  · rename_i ds rest hread
    obtain ⟨front, rfl, hvalues⟩ := exists_of_leading? h.digits hread
    split
    · exact ⟨_, rfl⟩
    · rename_i hlength
      cases rest with
      | nil =>
        -- all digits are read: they are decimal, and few enough
        rw [List.append_nil] at h
        rcases h.fault with ⟨c, hc, hnone⟩ | hlong
        · obtain ⟨v, hv⟩ := exists_value hvalues hc
          cases hnone.symm.trans hv
        · exact absurd (hvalues.length_eq ▸ hlong) hlength
      | cons c r =>
        have hdigit : c.isDigit = true := h.digits c (List.mem_append_right _ List.mem_cons_self)
        rw [List.all_cons, isMargin_of_isDigit hdigit]
        exact ⟨_, rfl⟩

/-- Digits are read as the number that they stand for, unless they stand for none or are too many. -/
theorem parse_of_not_unreadable (ht : t.IsDigits) (h : ¬ Unreadable t) : ∃ n : Nat, Denotes t n ∧ parse t = .ok n := by
  have hdecimal : ∀ c ∈ t, c.decimalValue? ≠ none := fun c hc hnone => h ⟨ht, .inl ⟨c, hc, hnone⟩⟩
  have hlength : t.length ≤ maxDigits := Nat.not_lt.mp fun hlong => h ⟨ht, .inr hlong⟩
  obtain ⟨ds, hds⟩ := exists_values hdecimal
  refine ⟨value ds, .digits ht.ne_nil hds, ?_⟩
  rw [parse_of_isDigits ht, leading?_of_forall₂ ht.ne_nil hds]
  dsimp only
  rw [if_neg (hds.length_eq ▸ Nat.not_lt.mpr hlength)]
  rfl

/-- Only what is written can be too wide. -/
theorem ne_tooWide_of_parse {e : NumeralError} (h : parse t = .error e) : e ≠ .tooWide := by
  rw [parse] at h
  split at h
  split at h
  · cases h
    nofun
  · split at h
    · cases h
      nofun
    · split at h <;> cases h
      nofun

/-- Decimal digits stand for one number. -/
theorem Denotes.unique {m : Nat} (hm : Denotes t m) (hn : Denotes t n) : m = n := by
  obtain ⟨-, hds⟩ := hm
  obtain ⟨-, hes⟩ := hn
  have hright : Relator.RightUnique fun (c : CodePoint) v => c.decimalValue? = some v :=
    fun _ _ _ hv hw => Option.some.inj (hv.symm.trans hw)
  rw [hright.forall₂ hds hes]

theorem Denotes.isDigits (h : Denotes t n) : t.IsDigits := by
  obtain ⟨hne, hds⟩ := h
  refine ⟨hne, fun c hc => ?_⟩
  obtain ⟨v, hv⟩ := exists_value hds hc
  exact CodePoint.isDigit_of_decimalValue? hv

end Numeral

end Legible
