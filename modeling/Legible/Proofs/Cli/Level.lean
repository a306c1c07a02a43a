import Legible.Cli.Input
import Legible.Log.Basic
import Legible.Proofs.Files.Path
import Legible.Proofs.Json.Reader
import Legible.Proofs.Text.Numeral
/-!
# What texts say of severities and levels

A severity and a level of the log are read alike: from a number in digits or from a name in letters of either case,
white space around it apart (`Severity.Names`, `LogLevel.Names`). All other texts say nothing, but for those of digits
that are no numeral: they are refused (`Severity.parse_eq_ok_iff`, `LogLevel.ofEnvironment_eq_ok_iff`). A document of
diagnostics is refused for such a severity, too (`Input.exists_ofJson_eq_ok_iff`).
-/

namespace Legible

/-! ## Numbers or names -/

section NumberOrName

variable {α : Type} {number : Int → Option α} {name : Text → Option α} {t : Text} {r : Option α}

/-- Reads a number where there are digits alone, and else a name in capitals, without the white space around it. -/
def numberOrName (number : Int → Option α) (name : Text → Option α) (t : Text) : Except NumeralError (Option α) :=
  if t.trim.IsDigits then (Numeral.parse t.trim).map number else .ok (name t.trim.upper)

/-- Whether there are digits alone can be asked of the capitals, and digits are their own capitals. -/
theorem numberOrName_eq (number : Int → Option α) (name : Text → Option α) (t : Text) :
    numberOrName number name t =
      if !t.trim.upper.isEmpty && t.trim.upper.all CodePoint.isDigit then (Numeral.parse t.trim.upper).map number
      else .ok (name t.trim.upper) := by
  have htest : (!t.trim.upper.isEmpty && t.trim.upper.all CodePoint.isDigit) = true ↔ t.trim.IsDigits := by
    rw [← Text.isDigits_upper_iff, Bool.and_eq_true, Bool.not_eq_true', List.all_eq_true, ← Bool.not_eq_true,
      List.isEmpty_iff]
    exact ⟨fun h => ⟨h.1, h.2⟩, fun h => ⟨h.1, h.2⟩⟩
  by_cases hdigits : t.trim.IsDigits
  · rw [numberOrName, if_pos hdigits, if_pos (htest.mpr hdigits), Text.upper_of_isDigits hdigits]
  · rw [numberOrName, if_neg hdigits, if_neg (htest.not.mpr hdigits)]

theorem exists_numberOrName_eq_error_iff :
    (∃ e, numberOrName number name t = .error e) ↔ Numeral.Unreadable t.trim := by
  rw [numberOrName]
  by_cases hdigits : t.trim.IsDigits
  · rw [if_pos hdigits]
    by_cases hread : Numeral.Unreadable t.trim
    · obtain ⟨e, he⟩ := Numeral.parse_of_unreadable hread
      exact iff_of_true ⟨e, by rw [he]; rfl⟩ hread
    · obtain ⟨n, -, hn⟩ := Numeral.parse_of_not_unreadable hdigits hread
      rw [hn]
      exact iff_of_false nofun hread
  · rw [if_neg hdigits]
    exact iff_of_false nofun fun hread => hdigits hread.toIsDigits

theorem ne_tooWide_of_numberOrName {e : NumeralError} (h : numberOrName number name t = .error e) : e ≠ .tooWide := by
  rw [numberOrName] at h
  split at h
  · exact Numeral.ne_tooWide_of_parse (map_eq_error_iff.mp h)
  · cases h

/-- No text of digits is a name; so a text is read as the number of its digits or as the name that it is. -/
theorem numberOrName_eq_ok_iff (hname : ∀ u : Text, u.IsDigits → name u = none) :
    numberOrName number name t = .ok r ↔ ¬ Numeral.Unreadable t.trim ∧
      ∀ a, r = some a ↔ (∃ n : Nat, Numeral.Denotes t.trim n ∧ number n = some a) ∨ name t.trim.upper = some a := by
  by_cases hread : Numeral.Unreadable t.trim
  · obtain ⟨e, he⟩ : ∃ e, numberOrName number name t = .error e := exists_numberOrName_eq_error_iff.mpr hread
    rw [he]
    exact iff_of_false nofun fun h => h.1 hread
  rw [and_iff_right hread, numberOrName]
  by_cases hdigits : t.trim.IsDigits
  · obtain ⟨n, hn, hparse⟩ := Numeral.parse_of_not_unreadable hdigits hread
    have hall : ∀ a, ((∃ m : Nat, Numeral.Denotes t.trim m ∧ number m = some a) ∨ name t.trim.upper = some a) ↔
        number n = some a := fun a => by
      rw [Text.upper_of_isDigits hdigits, hname _ hdigits, or_iff_left nofun]
      exact ⟨fun ⟨m, hm, ha⟩ => hm.unique hn ▸ ha, fun ha => ⟨n, hn, ha⟩⟩
    rw [if_pos hdigits, hparse]
    simp only [hall, ← Option.ext_iff]
    exact ⟨fun h => (Except.ok.inj h).symm, fun h => congrArg _ h.symm⟩
  · have hall : ∀ a, ((∃ m : Nat, Numeral.Denotes t.trim m ∧ number m = some a) ∨ name t.trim.upper = some a) ↔
        name t.trim.upper = some a := fun a => or_iff_right fun ⟨_, hm, _⟩ => hdigits hm.isDigits
    rw [if_neg hdigits]
    simp only [hall, ← Option.ext_iff]
    exact ⟨fun h => (Except.ok.inj h).symm, fun h => congrArg _ h.symm⟩

end NumberOrName

/-! ## Severities -/

namespace Severity

variable {t : Text} {s : Severity}

/-- What a text says of the severity: its number in decimal digits of any script, or its name or another one of its
names in letters of either case; white space around it does not count. -/
inductive Names (t : Text) : Severity → Prop
  | number {s : Severity} {n : Nat} : Numeral.Denotes t.trim n → s.number = n → Names t s
  | name {s : Severity} : t.trim.upper = s.name → Names t s
  | warn : t.trim.upper = "WARN" → Names t warning
  | information : t.trim.upper = "INFORMATION" → Names t info

theorem ofNumber?_eq_some_iff {n : Int} : ofNumber? n = some s ↔ s.number = n := by
  constructor
  · intro h
    simpa using List.find?_some h
  · rintro rfl
    cases s <;> rfl

theorem ofName?_eq_some_iff : ofName? t = some s ↔ fullName t = s.name := by
  constructor
  · intro h
    have hname : s.name = fullName t := by simpa using List.find?_some h
    exact hname.symm
  · intro h
    rw [ofName?, h]
    cases s <;> decide

theorem fullName_eq_iff :
    fullName t = s.name ↔ t = s.name ∨ (t = "WARN" ∧ s = warning) ∨ (t = "INFORMATION" ∧ s = info) := by
  rw [fullName]
  split
  · subst t
    cases s <;> decide
  · split
    · subst t
      cases s <;> decide
    · simp [*]

theorem names_iff : Names t s ↔
    (∃ n : Nat, Numeral.Denotes t.trim n ∧ ofNumber? n = some s) ∨ ofName? t.trim.upper = some s := by
  simp only [ofNumber?_eq_some_iff, ofName?_eq_some_iff, fullName_eq_iff]
  constructor
  · rintro (⟨hn, hs⟩ | h | h | h)
    · exact .inl ⟨_, hn, hs⟩
    · exact .inr (.inl h)
    · exact .inr (.inr (.inl ⟨h, rfl⟩))
    · exact .inr (.inr (.inr ⟨h, rfl⟩))
  · rintro (⟨n, hn, hs⟩ | h | ⟨h, rfl⟩ | ⟨h, rfl⟩)
    · exact .number hn hs
    · exact .name h
    · exact .warn h
    · exact .information h

theorem parse_eq (t : Text) : parse t = numberOrName ofNumber? ofName? t := (numberOrName_eq ..).symm

theorem ofName?_of_isDigits (h : t.IsDigits) : ofName? t = none := by
  refine Option.eq_none_iff_forall_ne_some.mpr fun s hs => ?_
  have hname : ∀ u ∈ (["WARN", "INFORMATION", "ERROR", "WARNING", "INFO", "HINT"] : List Text), ¬ u.IsDigits := by
    decide +kernel
  refine hname t ?_ h
  rcases fullName_eq_iff.mp (ofName?_eq_some_iff.mp hs) with h | h | h
  · cases s <;> simp [h, name]
  · simp [h.1]
  · simp [h.1]

theorem exists_parse_eq_error_iff : (∃ e, parse t = .error e) ↔ Numeral.Unreadable t.trim := by
  rw [parse_eq, exists_numberOrName_eq_error_iff]

/-- A text that can be read gives the severity that it names, if any. -/
theorem parse_eq_ok_iff {r : Option Severity} :
    parse t = .ok r ↔ ¬ Numeral.Unreadable t.trim ∧ ∀ s, r = some s ↔ Names t s := by
  simp only [parse_eq, numberOrName_eq_ok_iff fun _ => ofName?_of_isDigits, names_iff]

end Severity

/-! ## Levels of the log -/

namespace LogLevel

variable {t : Text} {l : LogLevel} {e : Environment}

/-- What a text says of the level: its number in decimal digits of any script, or one of its names in letters of either
case; white space around it does not count. -/
inductive Names (t : Text) : LogLevel → Prop
  | number {n : Nat} : Numeral.Denotes t.trim n → Names t ⟨n⟩
  | name {l : LogLevel} : (t.trim.upper, l) ∈ named ++ aliases → Names t l

theorem lookup_eq_some_iff : Association.lookup (named ++ aliases) t = some l ↔ (t, l) ∈ named ++ aliases := by
  have hkeys : ∀ p ∈ named ++ aliases, Association.lookup (named ++ aliases) p.1 = some p.2 := by decide +kernel
  refine ⟨fun h => ?_, fun h => hkeys _ h⟩
  obtain ⟨p, hp, rfl⟩ := Option.map_eq_some_iff.mp h
  obtain rfl : p.1 = t := by simpa using List.find?_some hp
  exact List.mem_of_find?_eq_some hp

theorem names_iff : Names t l ↔ (∃ n : Nat, Numeral.Denotes t.trim n ∧ some (⟨n⟩ : LogLevel) = some l) ∨
    Association.lookup (named ++ aliases) t.trim.upper = some l := by
  rw [lookup_eq_some_iff]
  constructor
  · rintro (hn | h)
    · exact .inl ⟨_, hn, rfl⟩
    · exact .inr h
  · rintro (⟨n, hn, hl⟩ | h)
    · cases hl
      exact .number hn
    · exact .name h

theorem parse_eq (t : Text) :
    parse t = numberOrName (fun n => some ⟨n⟩) (Association.lookup (named ++ aliases)) t := (numberOrName_eq ..).symm

theorem lookup_of_isDigits (h : t.IsDigits) : Association.lookup (named ++ aliases) t = none := by
  refine Option.eq_none_iff_forall_ne_some.mpr fun l hl => ?_
  have hname : ∀ p ∈ named ++ aliases, ¬ p.1.IsDigits := by decide +kernel
  exact hname _ (lookup_eq_some_iff.mp hl) h

/-- The environment asks for a level by digits that are no numeral. -/
def Misasked (e : Environment) : Prop := ∃ t, e.getNonempty? variableName = some t ∧ Numeral.Unreadable t.trim

theorem exists_ofEnvironment_eq_error_iff : (∃ x, ofEnvironment e = .error x) ↔ Misasked e := by
  rw [ofEnvironment, Misasked]
  cases e.getNonempty? variableName with
  | none => exact iff_of_false nofun nofun
  | some t => simp [parse_eq, exists_numberOrName_eq_error_iff]

/-- The environment asks for the level that its variable names, if any. -/
theorem ofEnvironment_eq_ok_iff {r : Option LogLevel} : ofEnvironment e = .ok r ↔
    ¬ Misasked e ∧ ∀ l, r = some l ↔ ∃ t, e.getNonempty? variableName = some t ∧ Names t l := by
  rw [ofEnvironment, Misasked]
  cases e.getNonempty? variableName with
  | none => simp [eq_comm (a := none), Option.eq_none_iff_forall_ne_some]
  | some t => simp [parse_eq, numberOrName_eq_ok_iff fun _ => lookup_of_isDigits, names_iff]

end LogLevel

/-! ## Diagnostics -/

theorem Diagnostic.exists_ofMembers_eq_ok_iff {members : List (Text × Json)} : (∃ d, ofMembers members = .ok d) ↔
    (∃ m, Association.lookup members "message" = some (.str m)) ∧
      ∀ t, Association.lookup members "severity" = some (.str t) → ¬ Numeral.Unreadable t.trim := by
  have hseverity : (∃ r, Severity.ofJson ((Association.lookup members "severity").getD .null) = .ok r) ↔
      ∀ t, Association.lookup members "severity" = some (.str t) → ¬ Numeral.Unreadable t.trim := by
    cases Association.lookup members "severity" with
    | none => simp [Severity.ofJson]
    | some v =>
      cases v with
      | str t =>
        simp only [Option.getD_some, Severity.ofJson, Option.some.injEq, Json.str.injEq, forall_eq',
          ← Severity.exists_parse_eq_error_iff]
        cases Severity.parse t <;> simp
      | _ => simp [Severity.ofJson]
  rw [ofMembers, ← hseverity]
  split
  · rename_i m hm
    rw [hm]
    split <;> simp_all
  · rename_i hm
    refine iff_of_false (by simp) fun h => ?_
    obtain ⟨m, hm'⟩ := h.1
    exact hm m hm'

namespace Input

variable {messages : List Text} {json : Bool} {labels : Labels} {s : Stdin} {t : Text}

/-- A document of diagnostics is read if it is JSON, each item is an object with a text for its message, and no severity
is a text of digits that are no numeral. -/
theorem exists_ofJson_eq_ok_iff : (∃ ds, ofJson t = .ok ds) ↔ ∃ j, Json.parse t = .ok j ∧ ∀ v ∈ items j,
    ∃ members, v = .obj members ∧ (∃ m, Association.lookup members "message" = some (.str m)) ∧
      ∀ t, Association.lookup members "severity" = some (.str t) → ¬ Numeral.Unreadable t.trim := by
  have hitem : ∀ (n : Nat) (v : Json), (∃ d, diagnostic n v = .ok d) ↔
      ∃ members, v = .obj members ∧ ∃ d, Diagnostic.ofMembers members = .ok d := fun n v => by
    cases v <;> simp [diagnostic, mapError_eq_ok_iff]
  rw [ofJson]
  cases Json.parse t with
  | error e => exact iff_of_false (by simp) (by simp)
  | ok j =>
    have hnumbered : (∃ ds, (items j).zipIdx.mapM (fun p => diagnostic p.2 p.1) = .ok ds) ↔
        ∀ v ∈ (items j).zipIdx.map Prod.fst, ∃ members, v = .obj members ∧
          ∃ d, Diagnostic.ofMembers members = .ok d := by
      simp only [exists_mapM_eq_ok_iff, hitem, List.forall_mem_map]
    rw [List.zipIdx_map_fst] at hnumbered
    simp only [Except.ok.injEq, exists_eq_left', ← Diagnostic.exists_ofMembers_eq_ok_iff]
    exact hnumbered

/-- What a command is about has a numeral that cannot be read: the label of a plain message, or a number of a
document. -/
def Misread (messages : List Text) (json : Bool) (labels : Labels) (s : Stdin) : Prop :=
  ∃ t, text messages s = .ok t ∧
    if json then ∃ n, Numeral.maxDigits < n ∧ Json.parse t = .error (.number (.tooLong n))
    else ∃ u, labels.severity = some u ∧ Numeral.Unreadable u.trim

theorem exists_refused_of_text {f : Failure} (h : text messages s = .error f) : ∃ k m, f = .refused k m := by
  have hraw : ∀ {f}, rawText messages s = .error f → ∃ k m, f = .refused k m := fun {f} h => by
    rw [rawText] at h
    split at h
    · rw [ofStdin] at h
      split at h <;> cases h
      exact ⟨_, _, rfl⟩
    · split at h <;> cases h
      exact ⟨_, _, rfl⟩
  rw [text] at h
  cases hr : rawText messages s with
  | error f' =>
    rw [hr] at h
    cases h
    exact hraw hr
  | ok t =>
    rw [hr] at h
    change (if t.isAllBlank = true then _ else _) = _ at h
    split at h <;> cases h
    exact ⟨_, _, rfl⟩

variable {e : NumeralError}

theorem ofJson_eq_numeral_iff : ofJson t = .error (.numeral e) ↔
    ∃ n, e = .tooLong n ∧ Numeral.maxDigits < n ∧ Json.parse t = .error (.number (.tooLong n)) := by
  rw [ofJson]
  cases h : Json.parse t with
  | error f =>
    cases f with
    | number f =>
      obtain ⟨n, rfl, hn⟩ := Json.exists_tooLong_of_parse h
      constructor
      · intro he
        cases he
        exact ⟨n, rfl, hn, rfl⟩
      · rintro ⟨m, rfl, -, hm⟩
        cases hm
        rfl
    | _ => exact iff_of_false nofun nofun
  | ok j =>
    refine iff_of_false (fun he => ?_) nofun
    obtain ⟨⟨v, n⟩, -, hv⟩ := exists_of_mapM_eq_error he
    cases v with
    | obj members =>
      obtain ⟨_, -, hrefused⟩ := mapError_eq_error_iff.mp hv
      cases hrefused
    | _ => cases hv

theorem severity_eq_numeral_iff {label : Option Text} :
    severity label = .error (.numeral e) ↔ ∃ t, label = some t ∧ Severity.parse t = .error e := by
  cases label with
  | none => exact iff_of_false nofun nofun
  | some t =>
    simp only [Option.some.injEq, exists_eq_left', severity]
    cases Severity.parse t with
    | error e => simp
    | ok r => cases r <;> simp

theorem diagnostics_eq_numeral_iff : diagnostics messages json labels s = .error (.numeral e) ↔ ∃ t,
    text messages s = .ok t ∧
      if json then ofJson t = .error (.numeral e) else severity labels.severity = .error (.numeral e) := by
  rw [diagnostics]
  cases h : text messages s with
  | error f =>
    obtain ⟨k, m, rfl⟩ := exists_refused_of_text h
    exact iff_of_false nofun nofun
  | ok t =>
    simp only [Except.ok.injEq, exists_eq_left', bind_eq_error_iff, reduceCtorEq, false_or]
    cases json with
    | true =>
      simp only [if_true, bind_eq_error_iff]
      refine or_iff_left ?_
      rintro ⟨ds, -, hds⟩
      split at hds <;> cases hds
    | false =>
      simp only [Bool.false_eq_true, if_false, bind_eq_error_iff]
      exact or_iff_left nofun

/-- The diagnostics of a command cannot be had for a numeral just if it is misread. -/
theorem exists_diagnostics_eq_numeral_iff :
    (∃ e, diagnostics messages json labels s = .error (.numeral e)) ↔ Misread messages json labels s := by
  simp only [diagnostics_eq_numeral_iff, Misread]
  rw [exists_comm]
  refine exists_congr fun t => ?_
  rw [exists_and_left]
  refine and_congr_right fun _ => ?_
  cases json with
  | true =>
    simp only [if_true, ofJson_eq_numeral_iff]
    rw [exists_comm]
    simp
  | false =>
    simp only [Bool.false_eq_true, if_false, severity_eq_numeral_iff, ← Severity.exists_parse_eq_error_iff]
    rw [exists_comm]
    simp

theorem ne_tooWide_of_diagnostics (h : diagnostics messages json labels s = .error (.numeral e)) : e ≠ .tooWide := by
  obtain ⟨t, -, h⟩ := diagnostics_eq_numeral_iff.mp h
  split at h
  · obtain ⟨n, rfl, -⟩ := ofJson_eq_numeral_iff.mp h
    nofun
  · obtain ⟨u, -, hu⟩ := severity_eq_numeral_iff.mp h
    exact ne_tooWide_of_numberOrName (Severity.parse_eq u ▸ hu)

end Input

end Legible
