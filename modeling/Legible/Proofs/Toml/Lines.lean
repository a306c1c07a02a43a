import Legible.Cli.Settings
import Legible.Proofs.Text.Newlines
import Legible.Proofs.Toml.RoundTrip
import Legible.Text.Lines
/-!
# The lines of a document

What is written of sections is lines without control characters but tabs (`Text.IsLine`). So nothing in it is taken for
a control sequence or for another line end, and lines that start with a number sign are skipped before it.
-/

namespace Legible

namespace Text

/-- Holds no control characters but tabs. -/
def IsLine (t : Text) : Prop := ∀ c ∈ t, Toml.isControl c = false

instance (t : Text) : Decidable t.IsLine := inferInstanceAs (Decidable (∀ c ∈ t, Toml.isControl c = false))

/-- Lines with their ends. -/
def withEnds (ls : List Text) : Text := ls.flatMap (· ++ newline)

variable {s t : Text} {ls : List Text}

theorem isLine_append : IsLine (s ++ t) ↔ IsLine s ∧ IsLine t := List.forall_mem_append

theorem isLine_cons {c : CodePoint} : IsLine (c :: t) ↔ Toml.isControl c = false ∧ IsLine t := List.forall_mem_cons

theorem isLine_flatMap {α : Type} {as : List α} {f : α → Text} (hf : ∀ a ∈ as, IsLine (f a)) : IsLine (as.flatMap f) :=
  fun c hc => by
    obtain ⟨a, ha, hc⟩ := List.mem_flatMap.mp hc
    exact hf a ha c hc

theorem isLine_join {sep : Text} (hsep : sep.IsLine) (hls : ∀ t ∈ ls, IsLine t) : IsLine (join sep ls) := by
  induction ls with
  | nil => exact fun c hc => absurd hc List.not_mem_nil
  | cons t ls ih =>
    obtain ⟨ht, hls⟩ := List.forall_mem_cons.mp hls
    rw [Toml.join_cons, isLine_append]
    exact ⟨ht, isLine_flatMap fun u hu => isLine_append.mpr ⟨hsep, hls u hu⟩⟩

theorem withEnds_append (ls ms : List Text) : withEnds (ls ++ ms) = withEnds ls ++ withEnds ms := List.flatMap_append

theorem mem_withEnds {c : CodePoint} (hls : ∀ t ∈ ls, IsLine t) (hc : c ∈ withEnds ls) :
    Toml.isControl c = false ∨ c = CodePoint.ofChar '\n' := by
  obtain ⟨t, ht, hc⟩ := List.mem_flatMap.mp hc
  rcases List.mem_append.mp hc with hc | hc
  · exact .inl (hls t ht c hc)
  · exact .inr (List.mem_singleton.mp hc)

/-- Lines end with line feeds alone. -/
theorem unifyNewlines_withEnds (hls : ∀ t ∈ ls, IsLine t) : unifyNewlines (withEnds ls) = withEnds ls :=
  unifyNewlines_eq_self_iff.mpr fun hmem => by
    rcases mem_withEnds hls hmem with h | h <;> exact absurd h (by decide)

theorem strip_of_not_mem (ht : Style.escape ∉ t) : Terminal.strip t = t := by
  rw [Terminal.strip]
  induction t with
  | nil => rfl
  | cons c t ih =>
    obtain ⟨hc, ht⟩ := not_or.mp (List.mem_cons.not.mp ht)
    have hnone : Terminal.sequenceLength? (c :: t) = none := by
      cases t with
      | nil => rfl
      | cons d r =>
        rw [Terminal.sequenceLength?, decide_eq_false (Ne.symm hc)]
        rfl
    rw [Terminal.stripFrom, hnone, ih ht]
    rfl

/-- Nothing in lines is a control sequence. -/
theorem strip_withEnds (hls : ∀ t ∈ ls, IsLine t) : Terminal.strip (withEnds ls) = withEnds ls :=
  strip_of_not_mem fun hmem => by
    rcases mem_withEnds hls hmem with h | h <;> exact absurd h (by decide)

/-- The line feed behind a line that is not empty is the only one to be cut off. -/
theorem chomp_withEnds (ls : List Text) {l : Text} (hl : l.IsLine) (hne : l ≠ []) :
    Cli.Scene.chomp (withEnds (ls ++ [l])) ++ newline = withEnds (ls ++ [l]) := by
  obtain ⟨t, c, hconcat⟩ := (List.eq_nil_or_concat l).resolve_left hne
  rw [List.concat_eq_append] at hconcat
  subst hconcat
  have hc : c.isNewline = false := decide_eq_false fun h => by
    have hcontrol := hl c (by simp)
    rw [h] at hcontrol
    exact absurd hcontrol (by decide)
  have hcut : withEnds (ls ++ [t ++ [c]]) = (withEnds ls ++ t) ++ [c] ++ newline := by
    simp [withEnds]
  have hend : (newline : Text).all CodePoint.isNewline = true := by decide
  rw [hcut, Cli.Scene.chomp, dropEndWhile, List.reverse_append, List.dropWhile_append_of_pos (by simpa using hend),
    List.reverse_append, List.reverse_singleton, List.singleton_append, List.dropWhile_cons_of_neg (by rw [hc]; decide)]
  simp

end Text

namespace Toml

/-! ## Remarks -/

theorem skipGaps_inside {t : Text} (ht : t.IsLine) (rest : Text) :
    skipGaps true (t ++ Text.newline ++ rest) = skipGaps false rest := by
  induction t with
  | nil => rfl
  | cons c t ih =>
    obtain ⟨hc, ht⟩ := Text.isLine_cons.mp ht
    have hnewline : c.isNewline = false := decide_eq_false fun h => by
      rw [h] at hc
      exact absurd hc (by decide)
    rw [List.cons_append, List.cons_append, skipGaps, hnewline, hc]
    cases isGap c <;> exact ih ht

/-- Remarks are skipped. -/
theorem skipGaps_remarks {remarks : List Text} (hremarks : ∀ t ∈ remarks, t.IsLine) (rest : Text) :
    skipGaps false (Text.withEnds (remarks.map (CodePoint.ofChar '#' :: ·)) ++ rest) = skipGaps false rest := by
  induction remarks with
  | nil => rfl
  | cons t remarks ih =>
    obtain ⟨ht, hremarks⟩ := List.forall_mem_cons.mp hremarks
    have hcons : Text.withEnds ((t :: remarks).map (CodePoint.ofChar '#' :: ·)) ++ rest =
        CodePoint.ofChar '#' :: (t ++ Text.newline ++
          (Text.withEnds (remarks.map (CodePoint.ofChar '#' :: ·)) ++ rest)) := by
      simp [Text.withEnds]
    have hskip (r : Text) : skipGaps false (CodePoint.ofChar '#' :: r) = skipGaps true r := by
      rw [skipGaps]
      rfl
    rw [hcons, hskip, skipGaps_inside ht, ih hremarks]

/-! ## Values -/

theorem isLine_escapeChar (c : CodePoint) : (escapeChar c).IsLine := by
  have hhex : ∀ n < 128, Text.IsLine ("\\u" ++ Text.hex 4 n) := by decide +kernel
  unfold escapeChar
  split_ifs with hquote hslash hlf hcr htab hbackspace hfeed hcontrol
  any_goals decide
  · exact hhex c.val (by simp only [Bool.or_eq_true, decide_eq_true_eq] at hcontrol; omega)
  · simp only [Bool.or_eq_true, decide_eq_true_eq, not_or] at hcontrol
    intro d hd
    cases List.mem_singleton.mp hd
    simp [isControl, hcontrol]

theorem isLine_quoted (t : Text) : (quoted t).IsLine :=
  Text.isLine_append.mpr
    ⟨Text.isLine_append.mpr ⟨by decide, Text.isLine_flatMap fun c _ => isLine_escapeChar c⟩, by decide⟩

theorem isControl_of_isBare {c : CodePoint} (hc : isBare c = true) : isControl c = false := by
  have hall : ∀ n < 128, isControl (.ofNat n) = true → isBare (.ofNat n) = false := by decide +kernel
  refine Bool.eq_false_iff.mpr fun hcontrol => ?_
  have hlow : c.val < 128 := by
    simp only [isControl, Bool.or_eq_true, Bool.and_eq_true, decide_eq_true_eq] at hcontrol
    omega
  have hbare := hall c.val hlow (by rwa [CodePoint.ofNat_val])
  rw [CodePoint.ofNat_val, hc] at hbare
  cases hbare

theorem isLine_ofInt (i : Int) : (Text.ofInt i).IsLine := fun c hc => isControl_of_isBare <| by
  rcases digit_or_dash_of_mem_ofInt hc with hdigit | rfl
  · simp [isBare, hdigit]
  · decide

theorem isLine_inlineText_of_isScalar {v : Toml} (hv : IsScalar v) (item : Bool) : (inlineText item v).IsLine := by
  cases hv with
  | str t => exact isLine_quoted t
  | @int i _ => exact isLine_ofInt i
  | bool b => cases b with
    | false => exact (by decide : Text.IsLine "false")
    | true => exact (by decide : Text.IsLine "true")

theorem isLine_inlineText {v : Toml} (hv : IsFlat v) : (inlineText false v).IsLine := by
  cases hv with
  | scalar hv => exact isLine_inlineText_of_isScalar hv false
  | @arr items hitems =>
    rw [inlineText, itemTexts_of_isScalar hitems, Text.isLine_append, Text.isLine_append]
    refine ⟨⟨by decide, Text.isLine_join (by decide) fun t ht => ?_⟩, by decide⟩
    obtain ⟨v, hv, rfl⟩ := List.mem_map.mp ht
    exact isLine_inlineText_of_isScalar (hitems v hv) true

/-! ## Sections -/

/-- The lines of a section. -/
def sectionLines (p : Text × Table) : List Text :=
  ("[" ++ p.1 ++ "]") :: p.2.map fun q => q.1 ++ " = " ++ inlineText false q.2

/-- The lines of sections, an empty one between two of them. -/
def documentLines : List (Text × Table) → List Text
  | [] => []
  | p :: ss => sectionLines p ++ ss.flatMap fun q => [] :: sectionLines q

theorem sectionText_eq (p : Text × Table) : sectionText p = Text.withEnds (sectionLines p) := by
  have hpair : pairLine = fun q => q.1 ++ " = " ++ inlineText false q.2 ++ Text.newline := rfl
  rw [sectionText, sectionLines, Text.withEnds, List.flatMap_cons, List.flatMap_map, hpair]
  simp [Text.ofString, Text.newline]

theorem render_eq_withEnds {ss : List (Text × Table)} (hss : AreSections ss) :
    render (ofSections ss) = Text.withEnds (documentLines ss) := by
  rw [render_ofSections hss]
  cases ss with
  | nil => rfl
  | cons p ss =>
    rw [List.map_cons, join_cons, documentLines, Text.withEnds_append, sectionText_eq, List.flatMap_map]
    simp [Text.withEnds, List.flatMap_assoc, sectionText_eq]

theorem isLine_of_mem_sectionLines {p : Text × Table} (hp : IsBareName p.1) (hs : IsSection p.2) {t : Text}
    (ht : t ∈ sectionLines p) : t.IsLine := by
  have hname {k : Text} (hk : IsBareName k) : k.IsLine := fun c hc => isControl_of_isBare (hk.bare c hc)
  rcases List.mem_cons.mp ht with rfl | ht
  · exact Text.isLine_append.mpr ⟨Text.isLine_append.mpr ⟨by decide, hname hp⟩, by decide⟩
  · obtain ⟨q, hq, rfl⟩ := List.mem_map.mp ht
    exact Text.isLine_append.mpr
      ⟨Text.isLine_append.mpr ⟨hname (hs.names q hq), by decide⟩, isLine_inlineText (hs.values q hq)⟩

theorem isLine_of_mem_documentLines {ss : List (Text × Table)} (hss : AreSections ss) {t : Text}
    (ht : t ∈ documentLines ss) : t.IsLine := by
  have hline {q : Text × Table} (hq : q ∈ ss) (ht : t ∈ sectionLines q) : t.IsLine :=
    isLine_of_mem_sectionLines (hss.names q hq) (hss.sections q hq) ht
  cases ss with
  | nil => exact absurd ht List.not_mem_nil
  | cons p ss =>
    rcases List.mem_append.mp ht with ht | ht
    · exact hline List.mem_cons_self ht
    · obtain ⟨q, hq, ht⟩ := List.mem_flatMap.mp ht
      rcases List.mem_cons.mp ht with rfl | ht
      · exact fun c hc => absurd hc List.not_mem_nil
      · exact hline (List.mem_cons_of_mem p hq) ht

/-- The last line of sections is not empty. -/
theorem exists_documentLines {ss : List (Text × Table)} (hne : ss ≠ []) :
    ∃ ls l, documentLines ss = ls ++ [l] ∧ l ≠ [] := by
  have hsection (p : Text × Table) : ∃ ls l, sectionLines p = ls ++ [l] ∧ l ≠ [] := by
    have hlines : ∀ l ∈ sectionLines p, l ≠ [] := by
      rw [sectionLines, List.forall_mem_cons, List.forall_mem_map]
      exact ⟨by simp [Text.ofString], fun q _ => by simp [Text.ofString]⟩
    obtain ⟨ls, l, hconcat⟩ := (List.eq_nil_or_concat (sectionLines p)).resolve_left (List.cons_ne_nil _ _)
    rw [List.concat_eq_append] at hconcat
    exact ⟨ls, l, hconcat, hlines l (by simp [hconcat])⟩
  obtain ⟨before, p, hconcat⟩ := (List.eq_nil_or_concat ss).resolve_left hne
  rw [List.concat_eq_append] at hconcat
  obtain ⟨ls, l, hls, hl⟩ := hsection p
  cases before with
  | nil => exact ⟨ls, l, by rw [hconcat, List.nil_append, documentLines, hls, List.flatMap_nil, List.append_nil], hl⟩
  | cons q before =>
    refine ⟨sectionLines q ++ (before.flatMap fun q => [] :: sectionLines q) ++ [] :: ls, l, ?_, hl⟩
    rw [hconcat, List.cons_append, documentLines, List.flatMap_append, List.flatMap_singleton, hls]
    simp

end Toml

end Legible
