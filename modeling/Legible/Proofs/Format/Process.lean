import Legible.Format.Process
import Legible.Proofs.Format.Wrapping
import Legible.Proofs.Text.Newlines
/-!
# Two ways to run a program

A program that the caller waits for and one that runs on the clock get the same bytes and leave the same bytes behind.
Their results differ in the line ends alone: those of the first are unified. That can be seen in the type that comes of
them exactly if the second keeps a carriage return in it; the carriage returns that stand where white space is removed,
in front of the type or behind its semicolon, are lost in both.
-/

namespace Legible

open Text (carriageReturn lineFeed)

/-! ## Replacing keeps other characters -/

theorem Text.mem_replace_iff {c : CodePoint} {old new : Text} (h : old ≠ []) (hold : c ∉ old) (hnew : c ∉ new)
    (t : Text) : c ∈ replace old new t ↔ c ∈ t := by
  induction t using find_induction h with
  | nil => simp [replace]
  | mark t ih => rw [replace_append h, List.mem_append, List.mem_append, ih, or_iff_right hnew, or_iff_right hold]
  | other d t hd ih => rw [replace_cons hd, List.mem_cons, List.mem_cons, ih]

/-! ## Unwrapping output with other line ends -/

namespace Wrapping

variable {t : Text}

theorem mem_restore_iff {c : CodePoint} (hname : c ∉ placeholder) (hdots : c ∉ ellipsis) (t : Text) :
    c ∈ restore t ↔ c ∈ t :=
  Text.mem_replace_iff placeholder_ne_nil hname hdots t

theorem dropFinalNewline_of_getLast?_ne (h : t.getLast? ≠ some lineFeed) : dropFinalNewline t = t := by
  rw [dropFinalNewline, if_neg]
  intro hends
  obtain ⟨s, rfl⟩ := List.isSuffixOf_iff_suffix.mp hends
  exact h List.getLast?_concat

theorem dropHead_of_not_starts (h : ¬ aliasHead <+: t) : dropHead t = t := by
  rw [dropHead, Text.dropStart?, if_neg (mt List.isPrefixOf_iff_prefix.mp h)]

/-- Either a semicolon goes, with the white space behind it, or nothing does. -/
theorem dropSemicolon_cases (t : Text) :
    (∃ w : Text, (∀ c ∈ w, c.isBlank = true) ∧ t = dropSemicolon t ++ ";" ++ w) ∨ dropSemicolon t = t := by
  have hblank : ∀ c ∈ t.rtakeWhile CodePoint.isBlank, c.isBlank = true := fun c hc => List.mem_rtakeWhile_imp hc
  have ht : t = Text.trimEnd t ++ t.rtakeWhile CodePoint.isBlank := List.rdropWhile_append_rtakeWhile.symm
  cases hreverse : (Text.trimEnd t).reverse with
  | nil => exact .inr (by rw [dropSemicolon, hreverse])
  | cons c r =>
    rw [List.reverse_eq_cons_iff] at hreverse
    by_cases hc : c = CodePoint.ofChar ';'
    · have ht : t = r.reverse ++ ";" ++ t.rtakeWhile CodePoint.isBlank := by rw [hreverse, hc] at ht; exact ht
      have hdrop := dropSemicolon_append r.reverse hblank
      rw [← ht] at hdrop
      exact .inl ⟨_, hblank, hdrop.symm ▸ ht⟩
    · exact .inr (by rw [dropSemicolon, hreverse]; simp [hc])

theorem dropHead_unifyNewlines (t : Text) : dropHead t.unifyNewlines = (dropHead t).unifyNewlines := by
  have hiff : aliasHead <+: t.unifyNewlines ↔ aliasHead <+: t := Text.prefix_unifyNewlines_iff (by decide) (by decide)
  by_cases h : aliasHead <+: t
  · obtain ⟨r, rfl⟩ := h
    rw [Text.unifyNewlines_append_of_not_mem (by decide), dropHead_append, dropHead_append, Text.trimStart_unifyNewlines]
  · rw [dropHead_of_not_starts h, dropHead_of_not_starts (mt hiff.mp h)]

theorem dropSemicolon_unifyNewlines (h : carriageReturn ∉ dropSemicolon t) :
    dropSemicolon t.unifyNewlines = dropSemicolon t := by
  rcases dropSemicolon_cases t with ⟨w, hw, ht⟩ | ht
  · have hfront : carriageReturn ∉ dropSemicolon t ++ (";" : Text) := by
      rw [List.mem_append, not_or]
      exact ⟨h, by decide⟩
    conv_lhs => rw [ht, Text.unifyNewlines_append_of_not_mem hfront]
    exact dropSemicolon_append _ fun c hc => Text.isBlank_of_mem_unifyNewlines hw hc
  · rw [ht] at h ⊢
    rw [Text.unifyNewlines_eq_self_iff.mpr h, ht]

/-- A carriage return behind the type is white space, or is kept. -/
theorem dropSemicolon_dropHead_concat (h : carriageReturn ∉ dropSemicolon (dropHead (t ++ [carriageReturn]))) :
    dropSemicolon (dropHead (t ++ [carriageReturn])) = dropSemicolon (dropHead t) := by
  have hhead : dropHead (t ++ [carriageReturn]) = dropHead t ++ [carriageReturn] ∨
      dropHead (t ++ [carriageReturn]) = dropHead t := by
    by_cases ht : aliasHead <+: t
    · obtain ⟨r, rfl⟩ := ht
      rw [List.append_assoc, dropHead_append, dropHead_append, Text.trimStart, List.dropWhile_append]
      split
      · rename_i hr
        exact .inr (List.isEmpty_iff.mp hr).symm
      · exact .inl rfl
    · left
      rw [dropHead_of_not_starts ht, dropHead_of_not_starts]
      intro hcut
      rcases List.prefix_concat_iff.mp hcut with heq | hcut
      · exact absurd (heq ▸ List.mem_concat_self) (by decide : carriageReturn ∉ aliasHead)
      · exact ht hcut
  rcases hhead with hhead | hhead
  · rw [hhead] at h ⊢
    rcases dropSemicolon_cases (dropHead t ++ [carriageReturn]) with ⟨w, hw, ht⟩ | ht
    · -- the carriage return is not the semicolon, so it is among the white space behind it
      rcases List.eq_nil_or_concat w with rfl | ⟨w, c, rfl⟩
      · rw [List.append_nil] at ht
        exact absurd (List.append_inj' ht rfl).2 (by decide)
      · rw [List.concat_eq_append, ← List.append_assoc] at ht
        have hbody := (List.append_inj' ht rfl).1
        conv_rhs => rw [hbody]
        exact (dropSemicolon_append _ fun d hd => hw d (by simp [hd])).symm
    · rw [ht] at h
      exact absurd List.mem_concat_self h
  · rw [hhead]

/-- The final line end goes in each of its forms; of a carriage return that is not read as one, it is the last part. -/
theorem dropFinalNewline_unifyNewlines (t : Text) :
    dropFinalNewline t.unifyNewlines = (dropFinalNewline t).unifyNewlines ∨
      ∃ s, dropFinalNewline t = s ++ [carriageReturn] ∧ dropFinalNewline t.unifyNewlines = s.unifyNewlines := by
  rcases List.eq_nil_or_concat t with rfl | ⟨s, c, rfl⟩
  · exact .inl rfl
  rw [List.concat_eq_append]
  by_cases hfeed : c = lineFeed
  · have hdrop : dropFinalNewline (s ++ [c]) = s := hfeed ▸ dropFinalNewline_append_newline s
    rw [hdrop]
    by_cases hs : s.getLast? = some carriageReturn
    · obtain ⟨u, rfl⟩ := List.getLast?_eq_some_iff.mp hs
      have hunify := Text.unifyNewlines_append (a := u) (b := [carriageReturn, lineFeed]) fun _ => by decide
      refine .inr ⟨u, rfl, ?_⟩
      rw [hfeed, List.append_assoc]
      exact (congrArg dropFinalNewline hunify).trans (dropFinalNewline_append_newline _)
    · have hunify := Text.unifyNewlines_append (a := s) (b := [lineFeed]) fun h => absurd h hs
      rw [hfeed]
      exact .inl ((congrArg dropFinalNewline hunify).trans (dropFinalNewline_append_newline _))
  have hkept (u : Text) : dropFinalNewline (u ++ [c]) = u ++ [c] := by
    refine dropFinalNewline_of_getLast?_ne ?_
    rw [List.getLast?_concat]
    exact mt Option.some.inj hfeed
  rw [hkept]
  by_cases hreturn : c = carriageReturn
  · have hunify := Text.unifyNewlines_append (a := s) (b := [carriageReturn]) fun _ => by decide
    rw [hreturn]
    exact .inr ⟨s, rfl, (congrArg dropFinalNewline hunify).trans (dropFinalNewline_append_newline _)⟩
  · rw [Text.unifyNewlines_concat hreturn hfeed, hkept]
    exact .inl rfl

theorem dropFinalNewline_subset (t : Text) : dropFinalNewline t ⊆ t := by
  rw [dropFinalNewline]
  split
  · exact List.dropLast_subset t
  · exact List.Subset.refl t

theorem dropHead_subset (t : Text) : dropHead t ⊆ t := by
  by_cases h : aliasHead <+: t
  · obtain ⟨r, rfl⟩ := h
    rw [dropHead_append]
    exact List.subset_append_of_subset_right _ (List.dropWhile_subset _)
  · rw [dropHead_of_not_starts h]
    exact List.Subset.refl t

theorem dropSemicolon_subset (t : Text) : dropSemicolon t ⊆ t := by
  rcases dropSemicolon_cases t with ⟨w, _, ht⟩ | ht
  · intro c hc
    rw [ht]
    exact List.mem_append_left _ (List.mem_append_left _ hc)
  · rw [ht]
    exact List.Subset.refl t

/-- The type in the output does not hang on the line ends of the output exactly if it has no carriage return itself. -/
theorem unwrap_unifyNewlines_eq_iff (t : Text) : unwrap t.unifyNewlines = unwrap t ↔ carriageReturn ∉ unwrap t := by
  have hrestore := mem_restore_iff (c := carriageReturn) (by decide) (by decide)
  constructor
  · intro h
    rw [← h, unwrap, hrestore]
    intro hmem
    have hmem := dropHead_subset _ (dropSemicolon_subset _ hmem)
    exact Text.not_mem_unifyNewlines t (dropFinalNewline_subset _ hmem)
  · intro h
    rw [unwrap, hrestore] at h
    rw [unwrap, unwrap]
    congr 1
    rcases dropFinalNewline_unifyNewlines t with ht | ⟨s, hs, ht⟩
    · rw [ht, dropHead_unifyNewlines, dropSemicolon_unifyNewlines h]
    · rw [hs] at h ⊢
      have hcut := dropSemicolon_dropHead_concat h
      rw [hcut] at h ⊢
      rw [ht, dropHead_unifyNewlines, dropSemicolon_unifyNewlines h]

end Wrapping

/-! ## Results with other line ends -/

namespace FormatFailure

variable {r s : ProcessResult}

theorem count_orEmpty (t : Text) : (orEmpty t).count carriageReturn = t.count carriageReturn := by
  cases t <;> rfl

/-- The words for a failed process have the carriage returns of what it wrote. -/
theorem count_of_message_eq (hargv : r.argv = s.argv) (hstatus : r.status = s.status)
    (h : (process r).message = (process s).message) :
    r.stderr.count carriageReturn + r.stdout.count carriageReturn =
      s.stderr.count carriageReturn + s.stdout.count carriageReturn := by
  have hcount := congrArg (List.count carriageReturn) h
  simp only [message, List.count_append, count_orEmpty, hargv, hstatus] at hcount
  omega

end FormatFailure

namespace ProcessResult

/-- The result with a line feed for every line end. -/
def unified (r : ProcessResult) : ProcessResult :=
  { r with stdout := r.stdout.unifyNewlines, stderr := r.stderr.unifyNewlines }

theorem unified_eq_self_iff (r : ProcessResult) :
    r.unified = r ↔ carriageReturn ∉ r.stdout ∧ carriageReturn ∉ r.stderr := by
  obtain ⟨argv, status, stdout, stderr⟩ := r
  simp [unified, Text.unifyNewlines_eq_self_iff]

theorem ok_unified (r : ProcessResult) : r.unified.ok = r.ok := by
  have hempty : r.stdout.unifyNewlines.isEmpty = r.stdout.isEmpty := by
    rw [Bool.eq_iff_iff, List.isEmpty_iff, List.isEmpty_iff, Text.unifyNewlines_eq_nil_iff]
  rw [ok, ok, unified, hempty]

end ProcessResult

namespace Outcome

theorem count_dropEndWhile_isNewline (t : Text) :
    (Text.dropEndWhile CodePoint.isNewline t).count carriageReturn = t.count carriageReturn := by
  have hfeeds : carriageReturn ∉ t.rtakeWhile CodePoint.isNewline := fun h =>
    absurd (List.mem_rtakeWhile_imp h) (by decide)
  have ht : Text.dropEndWhile CodePoint.isNewline t ++ t.rtakeWhile CodePoint.isNewline = t :=
    List.rdropWhile_append_rtakeWhile
  conv_rhs => rw [← ht, List.count_append, List.count_eq_zero_of_not_mem hfeeds, Nat.add_zero]

theorem ofResult_of_ok {r : ProcessResult} (h : r.ok = true) (content : Text) :
    ofResult content r = ⟨Wrapping.unwrap r.stdout, none⟩ := by
  rw [ofResult, if_pos h]

theorem ofResult_of_not_ok {r : ProcessResult} (h : r.ok = false) (content : Text) :
    ofResult content r = failed content (.process (trimmed r)) := by
  rw [ofResult, if_neg (by simp [h])]

/-- A failed process says all that it wrote, so the words for it show the line ends. -/
theorem failed_unified_iff (content : Text) (r : ProcessResult) :
    failed content (.process (trimmed r.unified)) = failed content (.process (trimmed r)) ↔ r.unified = r := by
  constructor
  · intro h
    have hmessage := Option.some.inj (congrArg error h)
    have hcount := FormatFailure.count_of_message_eq (r := trimmed r.unified) (s := trimmed r) rfl rfl hmessage
    simp only [trimmed, count_dropEndWhile_isNewline] at hcount
    have hstdout := List.count_eq_zero_of_not_mem (Text.not_mem_unifyNewlines r.stdout)
    have hstderr := List.count_eq_zero_of_not_mem (Text.not_mem_unifyNewlines r.stderr)
    rw [ProcessResult.unified, hstdout, hstderr] at hcount
    rw [ProcessResult.unified_eq_self_iff]
    exact ⟨List.count_eq_zero.mp (by omega), List.count_eq_zero.mp (by omega)⟩
  · intro h
    rw [h]

end Outcome

/-! ## The results -/

namespace Program

/-- The two results have the same arguments, status and success. They are equal if and only if the program wrote no
carriage return. What comes of them is the same if and only if the type that comes of the clock has no carriage return,
or, where the program failed, if it wrote none; the type is then kept as it was by both. -/
theorem results_differ_in_carriage_returns (program : Program) (argv : List Text) (input : Text) :
    let exit := program argv (ProcessResult.inputBytes input)
    let blocking := program.runBlocking argv input
    let clocked := program.runOnClock argv input
    (blocking.argv = clocked.argv ∧ blocking.status = clocked.status ∧ blocking.ok = clocked.ok) ∧
      (blocking = clocked ↔ 13 ∉ exit.stdout ∧ 13 ∉ exit.stderr) ∧
      ∀ content, let outcome := Outcome.ofResult content clocked
        (Outcome.ofResult content blocking = outcome ↔
          if clocked.ok then carriageReturn ∉ outcome.text else 13 ∉ exit.stdout ∧ 13 ∉ exit.stderr) ∧
        ((Outcome.ofResult content blocking).text = outcome.text ↔ clocked.ok = false ∨ carriageReturn ∉ outcome.text) := by
  intro exit blocking clocked
  have hunified : blocking = clocked.unified := rfl
  have hmem (bs : Bytes) : carriageReturn ∈ Utf8.decodeReplacing bs ↔ 13 ∈ bs :=
    Utf8.mem_decodeReplacing_iff (x := 13) (by decide) bs
  have hsame : clocked.unified = clocked ↔ 13 ∉ exit.stdout ∧ 13 ∉ exit.stderr := by
    rw [ProcessResult.unified_eq_self_iff]
    exact and_congr (not_congr (hmem _)) (not_congr (hmem _))
  have hok := clocked.ok_unified
  rw [hunified]
  refine ⟨⟨rfl, rfl, hok⟩, hsame, fun content => ?_⟩
  cases h : clocked.ok with
  | true =>
    rw [Outcome.ofResult_of_ok (hok.trans h), Outcome.ofResult_of_ok h]
    have htype := Wrapping.unwrap_unifyNewlines_eq_iff clocked.stdout
    simpa [ProcessResult.unified] using htype
  | false =>
    rw [Outcome.ofResult_of_not_ok (hok.trans h), Outcome.ofResult_of_not_ok h]
    have hfailed := (Outcome.failed_unified_iff content clocked).trans hsame
    simpa [Outcome.failed] using hfailed

/-- The same output, waited for and on the clock. -/
example : (Outcome.ofResult "A" (runBlocking (fun _ _ => ⟨0, "A |\r\n  B".toUTF8.toList, []⟩) [] [])).text = "A |\n  B" ∧
    (Outcome.ofResult "A" (runOnClock (fun _ _ => ⟨0, "A |\r\n  B".toUTF8.toList, []⟩) [] [])).text = "A |\r\n  B" := by
  decide +kernel

end Program

end Legible
