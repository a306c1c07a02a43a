import Legible.Format.Wrapping
import Mathlib.Data.List.DropRight
import Mathlib.Data.List.Infix
/-!
# What survives the wrapping

A type that is wrapped and unwrapped without having been formatted comes back as it was, unless it begins with
white space or holds the name for the dots, written out or as it comes about when dots stand behind its first
part.

Both replacements go from left to right, so they are compared along one reading of the type: `find_induction`
goes from one mark to the next as the first of them does, and the second one follows it as long as no name
comes about elsewhere (`placeholder_prefix_sanitize_iff`).
-/

namespace Legible

/-! ## Replacing -/

namespace Text

variable {old new t : Text}

theorem replace_append (h : old ≠ []) (new t : Text) : replace old new (old ++ t) = new ++ replace old new t := by
  obtain ⟨c, r, rfl⟩ := List.exists_cons_of_ne_nil h
  rw [List.cons_append, replace]
  simp

theorem replace_cons {c : CodePoint} (h : ¬ old <+: c :: t) (new : Text) :
    replace old new (c :: t) = c :: replace old new t := by
  have hold : ¬ old.isPrefixOf (c :: t) = true := mt List.isPrefixOf_iff_prefix.mp h
  rw [replace]
  simp [hold]

/-- A text is read from its start: past a mark where there is one, and past one character elsewhere. -/
theorem find_induction (h : old ≠ []) {P : Text → Prop} (nil : P []) (mark : ∀ t, P t → P (old ++ t))
    (other : ∀ c t, ¬ old <+: c :: t → P t → P (c :: t)) (t : Text) : P t := by
  induction hn : t.length using Nat.strong_induction_on generalizing t with
  | _ n ih =>
    by_cases hold : old <+: t
    · obtain ⟨r, rfl⟩ := hold
      have hpos := List.length_pos_of_ne_nil h
      rw [List.length_append] at hn
      exact mark r (ih r.length (by omega) r rfl)
    · cases t with
      | nil => exact nil
      | cons c r => exact other c r hold (ih r.length (by simp [← hn]) r rfl)

/-- What begins with a character that a text does not have does not begin within the text. -/
theorem cons_infix_append_iff {c : CodePoint} {p a : Text} (h : c ∉ a) (t : Text) :
    c :: p <:+: a ++ t ↔ c :: p <:+: t := by
  induction a with
  | nil => rfl
  | cons d a ih =>
    obtain ⟨hd, ha⟩ := not_or.mp (mt List.mem_cons.mpr h)
    rw [List.cons_append, List.infix_cons_iff, List.cons_prefix_cons, ih ha]
    simp [hd]

/-- The text begins with white space. -/
def StartsBlank (t : Text) : Prop := ∃ c ∈ t.head?, c.isBlank = true

theorem trimStart_eq_self_iff : t.trimStart = t ↔ ¬ t.StartsBlank := by
  rw [trimStart, List.dropWhile_eq_self_iff]
  cases t <;> simp [StartsBlank]

theorem trimStart_trimStart (t : Text) : t.trimStart.trimStart = t.trimStart :=
  List.dropWhile_idempotent _ _

/-- White space is no part of what is replaced, nor of what is put in its place. -/
theorem trimStart_replace {c d : CodePoint} {old new : Text} (hc : c.isBlank = false) (hd : d.isBlank = false)
    (t : Text) : (replace (c :: old) (d :: new) t).trimStart = replace (c :: old) (d :: new) t.trimStart := by
  induction t with
  | nil => simp [trimStart, replace]
  | cons b t ih =>
    by_cases hb : b.isBlank = true
    · have hcons : ¬ c :: old <+: b :: t := by
        intro h
        rw [List.cons_prefix_cons] at h
        exact absurd hb (by simp [← h.1, hc])
      rw [replace_cons hcons]
      simpa [trimStart, hb] using ih
    · rw [show trimStart (b :: t) = b :: t by simp [trimStart, hb]]
      by_cases hold : c :: old <+: b :: t
      · obtain ⟨r, hr⟩ := hold
        rw [← hr, replace_append (by simp)]
        simp [trimStart, hd]
      · rw [replace_cons hold]
        simp [trimStart, hb]

end Text

namespace Wrapping

/-! ## Dots and the name for them -/

theorem ellipsis_ne_nil : ellipsis ≠ [] := by decide

theorem placeholder_ne_nil : placeholder ≠ [] := by decide

@[simp] theorem sanitize_nil : sanitize [] = [] := by
  simp [sanitize, Text.replace]

@[simp] theorem restore_nil : restore [] = [] := by
  simp [restore, Text.replace]

theorem sanitize_ellipsis (t : Text) : sanitize (ellipsis ++ t) = placeholder ++ sanitize t :=
  Text.replace_append ellipsis_ne_nil ..

theorem sanitize_cons {c : CodePoint} {t : Text} (h : ¬ ellipsis <+: c :: t) : sanitize (c :: t) = c :: sanitize t :=
  Text.replace_cons h _

theorem restore_placeholder (t : Text) : restore (placeholder ++ t) = ellipsis ++ restore t :=
  Text.replace_append placeholder_ne_nil ..

theorem restore_cons {c : CodePoint} {t : Text} (h : ¬ placeholder <+: c :: t) : restore (c :: t) = c :: restore t :=
  Text.replace_cons h _

/-- A text without dots is kept, whatever stands behind it. -/
theorem sanitize_append {a : Text} (h : CodePoint.ofChar '.' ∉ a) (t : Text) : sanitize (a ++ t) = a ++ sanitize t := by
  induction a with
  | nil => rfl
  | cons c a ih =>
    obtain ⟨hc, ha⟩ := not_or.mp (mt List.mem_cons.mpr h)
    have hdots : ¬ ellipsis <+: c :: (a ++ t) := fun hp => hc (List.cons_prefix_cons.mp hp).1
    rw [List.cons_append, sanitize_cons hdots, ih ha, List.cons_append]

theorem trimStart_sanitize (t : Text) : (sanitize t).trimStart = sanitize t.trimStart :=
  Text.trimStart_replace (by decide) (by decide) t

theorem trimStart_restore (t : Text) : (restore t).trimStart = restore t.trimStart :=
  Text.trimStart_replace (by decide) (by decide) t

/-- The texts that come back as dots, or with the dots in another place. -/
def marks : List Text := ["__TS_ELLIPSIS__", "__TS_ELLIPSIS...", "__TS_ELLIPSIS_..."]

/-- What a text without dots can be in front of a sanitized text: it was there before, or it runs into a name that
was put there. -/
theorem prefix_sanitize {q t : Text} (hq : CodePoint.ofChar '.' ∉ q) (h : q <+: sanitize t) :
    q <+: t ∨ ∃ a b, q = a ++ b ∧ b ≠ [] ∧ a ++ ellipsis <+: t ∧ (b <+: placeholder ∨ placeholder <+: b) := by
  induction q generalizing t with
  | nil => exact .inl List.nil_prefix
  | cons c q ih =>
    obtain ⟨_, hq'⟩ := not_or.mp (mt List.mem_cons.mpr hq)
    by_cases hdots : ellipsis <+: t
    · obtain ⟨r, rfl⟩ := hdots
      rw [sanitize_ellipsis] at h
      have hname := List.prefix_or_prefix_of_prefix h (List.prefix_append ..)
      exact .inr ⟨[], c :: q, rfl, by simp, List.prefix_append .., hname⟩
    · cases t with
      | nil => cases List.prefix_nil.mp (sanitize_nil ▸ h)
      | cons d t =>
        rw [sanitize_cons hdots, List.cons_prefix_cons] at h
        obtain ⟨rfl, h⟩ := h
        rcases ih hq' h with hp | ⟨a, b, rfl, hb, ha, hname⟩
        · exact .inl (List.cons_prefix_cons.mpr ⟨rfl, hp⟩)
        · exact .inr ⟨c :: a, b, rfl, hb, List.cons_prefix_cons.mpr ⟨rfl, ha⟩, hname⟩

/-- The name ends in two underscores, as it begins: it runs into another one there and nowhere else. -/
theorem overlap {a b : Text} (h : placeholder = a ++ b) (ha : a ≠ []) (hb : b ≠ []) (hname : b <+: placeholder) :
    a = "__TS_ELLIPSIS" ∨ a = "__TS_ELLIPSIS_" := by
  have hlen : a.length < placeholder.length := by
    have := List.length_pos_of_ne_nil hb
    rw [h, List.length_append]
    omega
  have hpos := List.length_pos_of_ne_nil ha
  have htake : placeholder.take a.length = a := by rw [h, List.take_left]
  have hdrop : placeholder.drop a.length = b := by rw [h, List.drop_left]
  have hcases : ∀ n < placeholder.length, 0 < n → placeholder.drop n <+: placeholder →
      placeholder.take n = "__TS_ELLIPSIS" ∨ placeholder.take n = "__TS_ELLIPSIS_" := by decide
  rw [← htake]
  exact hcases a.length hlen hpos (hdrop ▸ hname)

/-- In front of what is no dots, a name comes about exactly where one of the marks stands. -/
theorem placeholder_prefix_sanitize_iff {t : Text} (h : ¬ ellipsis <+: t) :
    placeholder <+: sanitize t ↔ ∃ p ∈ marks, p <+: t := by
  constructor
  · intro hp
    rcases prefix_sanitize (by decide) hp with hp | ⟨a, b, hab, hb, ha, hname⟩
    · exact ⟨placeholder, by decide, hp⟩
    · have hne : a ≠ [] := by
        rintro rfl
        exact h ha
      have hname : b <+: placeholder := by
        rcases hname with hname | hname
        · exact hname
        · have hlen := hname.length_le
          rw [hab, List.length_append] at hlen
          exact absurd (List.length_pos_of_ne_nil hne) (by omega)
      rcases overlap hab hne hb hname with rfl | rfl
      · exact ⟨_, by decide, ha⟩
      · exact ⟨_, by decide, ha⟩
  · rintro ⟨p, hp, r, rfl⟩
    have split (a : Text) (ha : CodePoint.ofChar '.' ∉ a) (hname : placeholder <+: a ++ placeholder) :
        placeholder <+: sanitize (a ++ ellipsis ++ r) := by
      rw [List.append_assoc, sanitize_append ha, sanitize_ellipsis, ← List.append_assoc]
      exact hname.trans (List.prefix_append ..)
    simp only [marks, List.mem_cons, List.not_mem_nil, or_false] at hp
    rcases hp with rfl | rfl | rfl
    · exact (sanitize_append (a := placeholder) (by decide) r) ▸ List.prefix_append ..
    · exact split "__TS_ELLIPSIS" (by decide) (by decide)
    · exact split "__TS_ELLIPSIS_" (by decide) (by decide)

theorem not_mark_infix_ellipsis_append_iff (t : Text) :
    (∀ p ∈ marks, ¬ p <:+: ellipsis ++ t) ↔ ∀ p ∈ marks, ¬ p <:+: t := by
  refine forall₂_congr fun p hp => not_congr ?_
  obtain ⟨q, rfl⟩ : ∃ q, p = CodePoint.ofChar '_' :: q := by
    simp only [marks, List.mem_cons, List.not_mem_nil, or_false] at hp
    rcases hp with rfl | rfl | rfl <;> exact ⟨_, rfl⟩
  exact Text.cons_infix_append_iff (by decide) t

/-- Both replacements together give a text back exactly if it has none of the marks. -/
theorem restore_sanitize_eq_self_iff (t : Text) : restore (sanitize t) = t ↔ ∀ p ∈ marks, ¬ p <:+: t := by
  induction t using Text.find_induction ellipsis_ne_nil with
  | nil => simp [marks, List.infix_nil, Text.ofString]
  | mark t ih =>
    rw [sanitize_ellipsis, restore_placeholder, not_mark_infix_ellipsis_append_iff, List.append_right_inj, ih]
  | other c t hdots ih =>
    have hmarks := placeholder_prefix_sanitize_iff hdots
    rw [sanitize_cons hdots] at hmarks ⊢
    by_cases hname : placeholder <+: c :: sanitize t
    · -- dots stand now where there were none
      obtain ⟨p, hp, hpre⟩ := hmarks.mp hname
      refine iff_of_false ?_ fun h => h p hp hpre.isInfix
      intro h
      obtain ⟨r, hr⟩ := hname
      rw [← hr, restore_placeholder] at h
      exact hdots (h ▸ List.prefix_append ..)
    · rw [restore_cons hname, List.cons_inj_right, ih]
      refine forall₂_congr fun p hp => not_congr ?_
      have hpre : ¬ p <+: c :: t := fun hpre => hname (hmarks.mpr ⟨p, hp, hpre⟩)
      rw [List.infix_cons_iff, or_iff_right hpre]

/-! ## The alias -/

theorem dropFinalNewline_append_newline (t : Text) : dropFinalNewline (t ++ "\n") = t := by
  simp [dropFinalNewline, Text.endsWith, Text.ofString]

theorem dropFinalNewline_append_semicolon (t : Text) : dropFinalNewline (t ++ ";") = t ++ ";" := by
  have h : ¬ (t ++ (";" : Text)).endsWith "\n" = true := by
    intro h
    obtain ⟨u, hu⟩ := List.isSuffixOf_iff_suffix.mp h
    obtain ⟨_, hlast⟩ := List.append_inj' hu rfl
    exact absurd hlast (by decide)
  rw [dropFinalNewline, if_neg h]

theorem dropHead_append (t : Text) : dropHead (aliasHead ++ t) = t.trimStart := by
  simp [dropHead, Text.dropStart?, Text.trimStart]

/-- The last semicolon goes, with the white space behind it, and no other one. -/
theorem dropSemicolon_append (t : Text) {w : Text} (hw : ∀ c ∈ w, c.isBlank = true) :
    dropSemicolon (t ++ ";" ++ w) = t := by
  have hreverse : (Text.trimEnd (t ++ ";" ++ w)).reverse = CodePoint.ofChar ';' :: t.reverse := by
    have hw' : ∀ c ∈ w.reverse, c.isBlank = true := fun c hc => hw c (List.mem_reverse.mp hc)
    rw [Text.trimEnd, Text.dropEndWhile, List.reverse_reverse, List.reverse_append, List.dropWhile_append_of_pos hw',
      List.reverse_append]
    rfl
  rw [dropSemicolon, hreverse]
  simp

theorem trimStart_append_semicolon (t : Text) : (t ++ (";" : Text)).trimStart = t.trimStart ++ ";" := by
  induction t with
  | nil => rfl
  | cons c t ih =>
    by_cases hc : c.isBlank = true
    · simpa [Text.trimStart, hc] using ih
    · simp [Text.trimStart, hc]

/-- What comes back of a type that was not formatted, whether a line feed was written behind it or not. -/
theorem unwrap_wrap (t : Text) : unwrap (wrap t) = restore (sanitize t.trimStart) ∧
    unwrap (wrap t ++ "\n") = restore (sanitize t.trimStart) := by
  have hbody : dropSemicolon (dropHead (wrap t)) = sanitize t.trimStart := by
    rw [wrap, List.append_assoc, List.append_assoc, dropHead_append, ← List.append_assoc, trimStart_append_semicolon]
    have h := dropSemicolon_append (Text.trimStart (" " ++ sanitize t)) (w := []) nofun
    rw [List.append_nil] at h
    exact h.trans (trimStart_sanitize t)
  constructor
  · rw [unwrap, wrap, dropFinalNewline_append_semicolon, ← wrap, hbody]
  · rw [unwrap, dropFinalNewline_append_newline, hbody]

/-- A type that is wrapped and unwrapped comes back as it was, whether a line feed was written behind the alias or not,
if and only if it does not begin with white space and has none of the marks. White space at its start is lost, and
has no part in what comes back. -/
theorem wrapping_round_trip (t : Text) :
    let survives := ¬ t.StartsBlank ∧ ∀ p ∈ marks, ¬ p <:+: t
    (unwrap (wrap t) = t ↔ survives) ∧ (unwrap (wrap t ++ "\n") = t ↔ survives) ∧
      unwrap (wrap t) = unwrap (wrap t.trimStart) ∧ unwrap (wrap t ++ "\n") = unwrap (wrap t.trimStart ++ "\n") := by
  intro survives
  obtain ⟨hwrap, hfeed⟩ := unwrap_wrap t
  obtain ⟨hwrap', hfeed'⟩ := unwrap_wrap t.trimStart
  have hsurvives : restore (sanitize t.trimStart) = t ↔ survives := by
    constructor
    · intro h
      -- what comes back has no white space at its start
      have htrim : t.trimStart = t := by
        have := congrArg Text.trimStart h
        rwa [trimStart_restore, trimStart_sanitize, Text.trimStart_trimStart, h, eq_comm] at this
      rw [htrim] at h
      exact ⟨Text.trimStart_eq_self_iff.mp htrim, (restore_sanitize_eq_self_iff t).mp h⟩
    · rintro ⟨hblank, hmarks⟩
      rw [Text.trimStart_eq_self_iff.mpr hblank]
      exact (restore_sanitize_eq_self_iff t).mpr hmarks
  rw [Text.trimStart_trimStart] at hwrap' hfeed'
  exact ⟨hwrap ▸ hsurvives, hfeed ▸ hsurvives, hwrap.trans hwrap'.symm, hfeed.trans hfeed'.symm⟩

/-- Dots behind the first part of the name: the name that they become runs into it, and is read too early. -/
example : unwrap (wrap "__TS_ELLIPSIS_...") = "..._TS_ELLIPSIS__" ∧ unwrap (wrap "a....b") = "a....b" := by
  decide +kernel

end Wrapping

end Legible
