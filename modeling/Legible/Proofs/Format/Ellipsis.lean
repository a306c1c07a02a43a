import Legible.Proofs.Format.Wrapping
/-!
# One replacement is enough

The dots of a shortened type never reach the formatter, and the name that stands for them is never read back from its
output. A replacement goes over a text once and does not look at what it has written; that nothing is left to replace
is due to the two marks. They have no character in common, so a mark in the result can neither begin in what was put
in nor run into it (`Text.prefix_of_prefix_replace`): it would have stood in the text before, where it was not passed
over.
-/

namespace Legible

namespace Text

variable {old new q t : Text}

/-- What begins the result and has no character of what was put in begins the text already. -/
theorem prefix_of_prefix_replace (hold : old ≠ []) (hnew : new ≠ []) (hq : ∀ c ∈ new, c ∉ q)
    (h : q <+: replace old new t) : q <+: t := by
  induction q generalizing t with
  | nil => exact List.nil_prefix
  | cons c q ih =>
    have hq' : ∀ d ∈ new, d ∉ q := fun d hd hmem => hq d hd (List.mem_cons_of_mem c hmem)
    by_cases hmark : old <+: t
    · -- what was put in begins with a character of its own
      obtain ⟨r, rfl⟩ := hmark
      obtain ⟨d, new, rfl⟩ := List.exists_cons_of_ne_nil hnew
      rw [replace_append hold, List.cons_append, List.cons_prefix_cons] at h
      exact absurd (h.1 ▸ List.mem_cons_self) (hq d List.mem_cons_self)
    · cases t with
      | nil =>
        rw [replace] at h
        cases List.prefix_nil.mp h
      | cons d t =>
        rw [replace_cons hmark, List.cons_prefix_cons] at h
        exact List.cons_prefix_cons.mpr ⟨h.1, ih hq' h.2⟩

/-- A mark that has no character in common with what is put in its place is nowhere in the result. -/
theorem not_infix_replace (hold : old ≠ []) (hnew : new ≠ []) (h : ∀ c ∈ new, c ∉ old) (t : Text) :
    ¬ old <:+: replace old new t := by
  induction t using find_induction hold with
  | nil =>
    rw [replace, List.infix_nil]
    exact hold
  | mark t ih =>
    obtain ⟨c, p, rfl⟩ := List.exists_cons_of_ne_nil hold
    have hc : c ∉ new := fun hc => h c hc List.mem_cons_self
    rwa [replace_append hold, cons_infix_append_iff hc]
  | other c t hmark ih =>
    rw [replace_cons hmark, List.infix_cons_iff, ← replace_cons hmark]
    exact not_or.mpr ⟨fun hp => hmark (prefix_of_prefix_replace hold hnew h hp), ih⟩

theorem replace_eq_self (new : Text) (h : ¬ old <:+: t) : replace old new t = t := by
  induction t with
  | nil => rw [replace]
  | cons c t ih =>
    obtain ⟨hmark, hrest⟩ := not_or.mp (mt List.infix_cons_iff.mpr h)
    rw [replace_cons hmark, ih hrest]

/-- What ends in a character that a text does not have does not end within the text. -/
theorem concat_infix_append_iff {c : CodePoint} {p a : Text} (h : c ∉ a) (t : Text) :
    p ++ [c] <:+: t ++ a ↔ p ++ [c] <:+: t := by
  have hreverse := cons_infix_append_iff (p := p.reverse) (mt List.mem_reverse.mp h) t.reverse
  rwa [← List.reverse_append, ← List.reverse_concat', List.reverse_infix, List.reverse_infix] at hreverse

end Text

namespace Wrapping

theorem not_ellipsis_infix_sanitize (t : Text) : ¬ ellipsis <:+: sanitize t :=
  Text.not_infix_replace ellipsis_ne_nil placeholder_ne_nil (by decide) t

theorem not_placeholder_infix_restore (t : Text) : ¬ placeholder <:+: restore t :=
  Text.not_infix_replace placeholder_ne_nil ellipsis_ne_nil (by decide) t

/-- There are no dots in the frame of the alias. -/
theorem ellipsis_infix_wrap_iff (t : Text) : ellipsis <:+: wrap t ↔ ellipsis <:+: sanitize t := by
  have hhead : CodePoint.ofChar '.' ∉ aliasHead ++ " " := by decide
  have hend : CodePoint.ofChar '.' ∉ (";" : Text) := by decide
  rw [wrap]
  exact (Text.concat_infix_append_iff (p := "..") hend _).trans (Text.cons_infix_append_iff (p := "..") hhead _)

/-- Each of the two replacements leaves nothing of what it replaces, and so a second one changes nothing. The formatter
reads no dots, whatever the type is, and no name for them is read in its output, whatever it writes. -/
theorem one_replacement_is_enough (t : Text) :
    ¬ ellipsis <:+: sanitize t ∧ ¬ placeholder <:+: restore t ∧
      sanitize (sanitize t) = sanitize t ∧ restore (restore t) = restore t ∧
      ¬ ellipsis <:+: wrap t ∧ ¬ placeholder <:+: unwrap t := by
  have hdots := not_ellipsis_infix_sanitize t
  have hname := not_placeholder_infix_restore t
  have hwrap : ¬ ellipsis <:+: wrap t := mt (ellipsis_infix_wrap_iff t).mp hdots
  exact ⟨hdots, hname, Text.replace_eq_self _ hdots, Text.replace_eq_self _ hname, hwrap,
    not_placeholder_infix_restore _⟩

/-- A dot is left of four, and names that overlap are one name. -/
example : sanitize "a....;" = "a__TS_ELLIPSIS__.;" ∧ restore "__TS_ELLIPSIS__TS_ELLIPSIS__" = "...TS_ELLIPSIS__" := by
  decide +kernel

end Wrapping

end Legible
