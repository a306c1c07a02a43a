import Legible.Proofs.Results
import Legible.Render.Report
/-!
# Diagnostics that can be written

A number has to be written for the code of a diagnostic to be shown, and nobody writes one with too many digits. That
is the only reason for which a diagnostic is not rendered (`View.ofDiagnostic_eq_error_iff`), and what is seen then is
what was seen before (`View.Follows`).
-/

namespace Legible

/-- The code is a number with too many digits to be written. -/
def Diagnostic.HasWideCode (d : Diagnostic) : Prop := ∃ n, d.code = some (.number n) ∧ Numeral.isTooWide n = true

theorem Diagnostic.Code.shown_eq_error_iff {c : Diagnostic.Code} {e : NumeralError} :
    c.shown = .error e ↔ e = .tooWide ∧ ∃ n, c = .number n ∧ Numeral.isTooWide n = true := by
  cases c with
  | number n => simp [shown, Numeral.shown_eq_error_iff]
  | text t => simp [shown]

theorem Markdown.codeLines_eq_error_iff {d : Diagnostic} {e : NumeralError} :
    codeLines d.code = .error e ↔ e = .tooWide ∧ d.HasWideCode := by
  cases h : d.code with
  | none => simp [codeLines, Diagnostic.HasWideCode, h]
  | some c => simp [codeLines, Diagnostic.HasWideCode, h, map_eq_error_iff, Diagnostic.Code.shown_eq_error_iff]

namespace View

variable {d : Diagnostic} {segments : List Segment} {title : Option Text} {before view : Option View} {v : View}

theorem ofDiagnostic_eq_error_iff {e : NumeralError} :
    ofDiagnostic d segments title = .error e ↔ e = .tooWide ∧ d.HasWideCode := by
  rw [ofDiagnostic, map_eq_error_iff, Markdown.headerLines, map_eq_error_iff, Markdown.codeLines_eq_error_iff]

theorem ofDiagnostic_of_wide (h : d.HasWideCode) : ofDiagnostic d segments title = .error .tooWide :=
  ofDiagnostic_eq_error_iff.mpr ⟨rfl, h⟩

theorem exists_ofDiagnostic_iff : (∃ v, ofDiagnostic d segments title = .ok v) ↔ ¬ d.HasWideCode := by
  cases h : ofDiagnostic d segments title with
  | ok v => exact iff_of_true ⟨v, rfl⟩ fun hwide => nomatch h.symm.trans (ofDiagnostic_of_wide hwide)
  | error e => exact iff_of_false nofun (not_not_intro (ofDiagnostic_eq_error_iff.mp h).2)

theorem not_wide_of_eq_ok (h : ofDiagnostic d segments title = .ok v) : ¬ d.HasWideCode :=
  exists_ofDiagnostic_iff.mp ⟨v, h⟩

/-- What is seen after a rendering: the diagnostic with its segments, or what was seen before if its code has too many
digits. -/
structure Follows (before : Option View) (d : Diagnostic) (segments : List Segment) (title : Option Text)
    (view : Option View) : Prop where
  rendered : ¬ d.HasWideCode → ∃ v, ofDiagnostic d segments title = .ok v ∧ view = some v
  unrendered : d.HasWideCode → view = before

theorem Follows.trans {segments' : List Segment} {view' : Option View} (h : Follows before d segments title view)
    (h' : Follows view d segments' title view') : Follows before d segments' title view' :=
  ⟨h'.rendered, fun hwide => (h'.unrendered hwide).trans (h.unrendered hwide)⟩

theorem follows_iff : Follows before d segments title view ↔
    view = ((ofDiagnostic d segments title).toOption <|> before) := by
  cases h : ofDiagnostic d segments title with
  | ok v =>
    have hwide := not_wide_of_eq_ok h
    constructor
    · intro hf
      obtain ⟨v', hv', hview⟩ := hf.rendered hwide
      rw [hview, Except.ok.inj (hv'.symm.trans h)]
      rfl
    · exact fun hview => ⟨fun _ => ⟨v, h, hview⟩, fun hwide' => absurd hwide' hwide⟩
  | error e =>
    obtain ⟨_, hwide⟩ := ofDiagnostic_eq_error_iff.mp h
    exact ⟨fun hf => hf.unrendered hwide, fun hview => ⟨fun hnot => absurd hwide hnot, fun _ => hview⟩⟩

end View

namespace Report

variable {config : Config} {d : Diagnostic} {segments : List Segment} {errors : List Text}

theorem of_eq_error_iff {f : Fault} :
    Report.of config d segments errors = .error f ↔ f = .code .tooWide ∧ d.HasWideCode := by
  rw [Report.of, map_eq_error_iff, mapError_eq_error_iff]
  constructor
  · rintro ⟨e, he, rfl⟩
    obtain ⟨rfl, hwide⟩ := View.ofDiagnostic_eq_error_iff.mp he
    exact ⟨rfl, hwide⟩
  · rintro ⟨rfl, hwide⟩
    exact ⟨_, View.ofDiagnostic_of_wide hwide, rfl⟩

theorem of_eq_ok_iff {r : Report} : Report.of config d segments errors = .ok r ↔
    ∃ v, View.ofDiagnostic d segments config.title = .ok v ∧ ⟨d, v, segments, errors⟩ = r := by
  simp only [Report.of, map_eq_ok_iff, mapError_eq_ok_iff]

end Report

end Legible
