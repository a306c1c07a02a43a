import Legible.Proofs.Format.Wrapping
/-!
# Layouts of the alias

However a formatter lays out the alias of a type, the same type is read from it: white space between the equals sign
and the type goes, and so does one semicolon with all white space behind it. The semicolon is the last one, as white
space is all that stands behind it; all others, and all line ends and heads of an alias that stand in the type, are
part of the type. Without a semicolon the type ends where the output does, but for one line feed.
-/

namespace Legible

/-- The last character that is no white space is a semicolon. -/
def Text.EndsInSemicolon (t : Text) : Prop := t.trimEnd.getLast? = some (CodePoint.ofChar ';')

instance (t : Text) : Decidable t.EndsInSemicolon := inferInstanceAs (Decidable (_ = _))

namespace Wrapping

variable {t : Text}

/-! ## The end of the output -/

theorem dropFinalNewline_of_not_endsWith (h : t.endsWith "\n" = false) : dropFinalNewline t = t := by
  rw [dropFinalNewline, h]
  rfl

/-- A final line feed is part of what stands last. -/
theorem dropFinalNewline_append {s : Text} (hs : s ≠ []) (t : Text) :
    dropFinalNewline (t ++ s) = t ++ dropFinalNewline s := by
  obtain ⟨u, c, rfl⟩ := (List.eq_nil_or_concat s).resolve_left hs
  rw [List.concat_eq_append, ← List.append_assoc]
  by_cases hc : c = CodePoint.ofChar '\n'
  · have hdrop (v : Text) : dropFinalNewline (v ++ [c]) = v := hc ▸ dropFinalNewline_append_newline v
    rw [hdrop, hdrop]
  · have hkeep (v : Text) : dropFinalNewline (v ++ [c]) = v ++ [c] := by
      apply dropFinalNewline_of_not_endsWith
      rw [Bool.eq_false_iff]
      intro h
      obtain ⟨x, hx⟩ := List.isSuffixOf_iff_suffix.mp h
      exact hc (List.cons.inj (List.append_inj' hx rfl).2).1.symm
    rw [hkeep, hkeep, List.append_assoc]

/-- A line feed behind a text without one at its end is part of what stands last. -/
theorem dropFinalNewline_append_of_kept (ht : dropFinalNewline t = t) (w : Text) :
    dropFinalNewline (t ++ w) = t ++ dropFinalNewline w := by
  by_cases hw : w = []
  · subst hw
    rw [List.append_nil, ht]
    simp [dropFinalNewline]
  · exact dropFinalNewline_append hw t

/-- Either a line feed goes or nothing does. -/
theorem dropFinalNewline_cases (t : Text) : t = dropFinalNewline t ∨ t = dropFinalNewline t ++ "\n" := by
  cases h : t.endsWith "\n" with
  | true =>
    obtain ⟨u, rfl⟩ := List.isSuffixOf_iff_suffix.mp h
    exact .inr (congrArg (· ++ _) (dropFinalNewline_append_newline u)).symm
  | false => exact .inl (dropFinalNewline_of_not_endsWith h).symm

theorem isBlank_of_mem_dropFinalNewline {w : Text} (hw : ∀ c ∈ w, c.isBlank = true) :
    ∀ c ∈ dropFinalNewline w, c.isBlank = true := by
  intro c hc
  rw [dropFinalNewline] at hc
  split at hc
  · exact hw c (List.mem_of_mem_dropLast hc)
  · exact hw c hc

theorem dropSemicolon_of_not_endsInSemicolon (h : ¬ t.EndsInSemicolon) : dropSemicolon t = t := by
  rw [Text.EndsInSemicolon, ← List.head?_reverse] at h
  rw [dropSemicolon]
  cases hreverse : (Text.trimEnd t).reverse with
  | nil => rfl
  | cons c r =>
    have hc : c ≠ CodePoint.ofChar ';' := by simpa [hreverse] using h
    simp [hc]

/-! ## The start of the output -/

theorem trimStart_append {w : Text} (hw : ∀ c ∈ w, c.isBlank = true) (ht : ¬ t.StartsBlank) :
    Text.trimStart (w ++ t) = t := by
  rw [Text.trimStart, List.dropWhile_append_of_pos hw]
  exact Text.trimStart_eq_self_iff.mpr ht

theorem not_startsBlank_append {s : Text} (ht : ¬ t.StartsBlank) (hs : ¬ s.StartsBlank) : ¬ (t ++ s).StartsBlank := by
  cases t with
  | nil => exact hs
  | cons c t => exact ht

/-! ## Layouts -/

/-- A type is read from each layout of its alias, with its semicolon, whatever white space stands around it, and without
one. The type may be empty, and it may have semicolons, line ends and heads of an alias in it. -/
theorem every_layout_is_read {b w₁ : Text} (hb : ¬ b.StartsBlank) (hw₁ : ∀ c ∈ w₁, c.isBlank = true) :
    (∀ w₂ : Text, (∀ c ∈ w₂, c.isBlank = true) → unwrap (aliasHead ++ w₁ ++ b ++ ";" ++ w₂) = restore b) ∧
    (b.endsWith "\n" = false → ¬ b.EndsInSemicolon →
      unwrap (aliasHead ++ w₁ ++ b) = restore b ∧ unwrap (aliasHead ++ w₁ ++ b ++ "\n") = restore b) := by
  constructor
  · intro w₂ hw₂
    have hend : dropFinalNewline (aliasHead ++ w₁ ++ b ++ ";" ++ w₂) =
        aliasHead ++ (w₁ ++ (b ++ ";" ++ dropFinalNewline w₂)) := by
      by_cases hw : w₂ = []
      · subst hw
        rw [List.append_nil, dropFinalNewline_append_semicolon]
        simp [dropFinalNewline]
      · rw [dropFinalNewline_append hw]
        simp only [List.append_assoc]
    have hstart : ¬ Text.StartsBlank (b ++ ";" ++ dropFinalNewline w₂) := by
      rw [List.append_assoc]
      apply not_startsBlank_append hb
      rintro ⟨c, hc, hblank⟩
      cases hc
      exact absurd hblank (by decide)
    rw [unwrap, hend, dropHead_append, trimStart_append hw₁ hstart,
      dropSemicolon_append b (isBlank_of_mem_dropFinalNewline hw₂)]
  · intro hline hsemicolon
    have hbody : dropSemicolon (dropHead (aliasHead ++ w₁ ++ b)) = b := by
      rw [List.append_assoc, dropHead_append, trimStart_append hw₁ hb, dropSemicolon_of_not_endsInSemicolon hsemicolon]
    constructor
    · cases b with
      | nil =>
        -- the line feed that goes may be part of the white space behind the equals sign
        have hend : dropFinalNewline (aliasHead ++ w₁) = aliasHead ++ dropFinalNewline w₁ := by
          by_cases hw : w₁ = []
          · subst hw
            decide
          · exact dropFinalNewline_append hw _
        have hblank := trimStart_append (isBlank_of_mem_dropFinalNewline hw₁) hb
        rw [List.append_nil] at hblank
        rw [unwrap, List.append_nil, hend, dropHead_append, hblank, dropSemicolon_of_not_endsInSemicolon hsemicolon]
      | cons c r =>
        rw [unwrap, dropFinalNewline_append (by simp), dropFinalNewline_of_not_endsWith hline, hbody]
    · rw [unwrap, dropFinalNewline_append_newline, hbody]

/-- Semicolons, line ends and a head inside the type stay; what stands around it goes. -/
theorem spread_out_alias_is_read :
    let b : Text := "[a: A;\n b: B];\ntype __TSErrorsType__ = c"
    let w : Text := "\r\n  "
    ¬ b.StartsBlank ∧ (∀ c ∈ w, c.isBlank = true) ∧ b.endsWith "\n" = false ∧ ¬ b.EndsInSemicolon ∧
      unwrap (aliasHead ++ w ++ b ++ ";" ++ w) = restore b ∧ unwrap (aliasHead ++ w ++ b ++ "\n") = restore b := by
  intro b w
  have hb : ¬ b.StartsBlank := by
    rintro ⟨c, hc, hblank⟩
    cases hc
    exact absurd hblank (by decide)
  have hw : ∀ c ∈ w, c.isBlank = true := by decide
  have hline : b.endsWith "\n" = false := by decide +kernel
  have hsemicolon : ¬ b.EndsInSemicolon := by decide +kernel
  have h := every_layout_is_read hb hw
  exact ⟨hb, hw, hline, hsemicolon, h.1 w hw, (h.2 hline hsemicolon).2⟩

end Wrapping

end Legible
