import Legible.Proofs.Format.Ellipsis
import Legible.Proofs.Format.Layout
import Legible.Proofs.Format.Process
import Legible.Proofs.Service.Provenance
/-!
# Types that are erased

Whether a run succeeded is asked of its output as it is, and the type is what is left of that output without the frame
of the alias. So output with a frame and no type in it passes for a success, and so does white space: the type is
replaced by nothing that can be seen, and that enters the cache. `HoldsNoType` lists such output by its layout, and
`isBlank_unwrap_iff` says that nothing else does it.
-/

namespace Legible

namespace Wrapping

variable {t v w : Text}

/-- Output without a type: white space, and parts of the frame of an alias with white space where the type would be and
behind the semicolon. -/
inductive HoldsNoType : Text → Prop
  | blank {w : Text} : (∀ c ∈ w, c.isBlank = true) → HoldsNoType w
  | semicolon {v w : Text} : (∀ c ∈ v, c.isBlank = true) → (∀ c ∈ w, c.isBlank = true) → HoldsNoType (v ++ ";" ++ w)
  | head {w : Text} : (∀ c ∈ w, c.isBlank = true) → HoldsNoType (aliasHead ++ w)
  | frame {v w : Text} : (∀ c ∈ v, c.isBlank = true) → (∀ c ∈ w, c.isBlank = true) →
      HoldsNoType (aliasHead ++ v ++ ";" ++ w)

/-! ## What is left of white space and frames -/

theorem not_mem_of_isBlank {c : CodePoint} (hc : c.isBlank = false) (hw : ∀ d ∈ w, d.isBlank = true) : c ∉ w :=
  fun hmem => absurd (hw c hmem) (by simp [hc])

theorem restore_of_isBlank (hw : ∀ c ∈ w, c.isBlank = true) : restore w = w := by
  refine Text.replace_eq_self _ fun h => ?_
  have hmem : CodePoint.ofChar '_' ∈ w := h.subset (by decide)
  exact not_mem_of_isBlank (by decide) hw hmem

theorem isBlank_restore_iff (t : Text) :
    (∀ c ∈ restore t, c.isBlank = true) ↔ ∀ c ∈ t, c.isBlank = true := by
  refine ⟨fun h => ?_, fun h => (restore_of_isBlank h).symm ▸ h⟩
  induction t using Text.find_induction placeholder_ne_nil with
  | nil => exact fun _ hc => absurd hc List.not_mem_nil
  | mark t ih =>
    -- a dot can be seen
    rw [restore_placeholder] at h
    exact absurd (h '.' (List.mem_append_left _ (by decide))) (by decide)
  | other c t hname ih =>
    rw [restore_cons hname, List.forall_mem_cons] at h
    exact List.forall_mem_cons.mpr ⟨h.1, ih h.2⟩

theorem dropHead_of_not_mem (h : CodePoint.ofChar 't' ∉ t) : dropHead t = t :=
  dropHead_of_not_starts fun hstarts => h (hstarts.subset (by decide))

theorem dropSemicolon_of_not_mem (h : CodePoint.ofChar ';' ∉ t) : dropSemicolon t = t := by
  rcases dropSemicolon_cases t with ⟨w, _, ht⟩ | ht
  · rw [ht] at h
    exact absurd (List.mem_append_left w (List.mem_append_right _ (by decide))) h
  · exact ht

/-- Of white space a line feed at the end is cut, and nothing else. -/
theorem unwrap_blank (hw : ∀ c ∈ w, c.isBlank = true) : unwrap w = dropFinalNewline w := by
  have hw' := isBlank_of_mem_dropFinalNewline hw
  rw [unwrap, dropHead_of_not_mem (not_mem_of_isBlank (by decide) hw'),
    dropSemicolon_of_not_mem (not_mem_of_isBlank (by decide) hw'), restore_of_isBlank hw']

theorem unwrap_semicolon (hv : ∀ c ∈ v, c.isBlank = true) (hw : ∀ c ∈ w, c.isBlank = true) :
    unwrap (v ++ ";" ++ w) = v := by
  have hw' := isBlank_of_mem_dropFinalNewline hw
  have hhead : CodePoint.ofChar 't' ∉ v ++ ";" ++ dropFinalNewline w := by
    simp only [List.mem_append, not_or]
    exact ⟨⟨not_mem_of_isBlank (by decide) hv, by decide⟩, not_mem_of_isBlank (by decide) hw'⟩
  rw [unwrap, dropFinalNewline_append_of_kept (dropFinalNewline_append_semicolon v), dropHead_of_not_mem hhead,
    dropSemicolon_append v hw', restore_of_isBlank hv]

theorem unwrap_head (hw : ∀ c ∈ w, c.isBlank = true) : unwrap (aliasHead ++ w) = [] := by
  have hblank := trimStart_append (t := []) (isBlank_of_mem_dropFinalNewline hw) (by rintro ⟨c, hc, -⟩; cases hc)
  rw [List.append_nil] at hblank
  rw [unwrap, dropFinalNewline_append_of_kept (by decide), dropHead_append, hblank]
  exact restore_nil

theorem unwrap_frame (hv : ∀ c ∈ v, c.isBlank = true) (hw : ∀ c ∈ w, c.isBlank = true) :
    unwrap (aliasHead ++ v ++ ";" ++ w) = [] := by
  have hstart : ¬ Text.StartsBlank (";" ++ dropFinalNewline w) := by
    rintro ⟨c, hc, hblank⟩
    cases hc
    exact absurd hblank (by decide)
  rw [unwrap, dropFinalNewline_append_of_kept (dropFinalNewline_append_semicolon _), List.append_assoc, List.append_assoc,
    dropHead_append, trimStart_append hv hstart]
  have hsemicolon := dropSemicolon_append [] (isBlank_of_mem_dropFinalNewline hw)
  rw [List.nil_append] at hsemicolon
  rw [hsemicolon, restore_nil]

/-! ## Output of which nothing is left -/

theorem HoldsNoType.append_newline (h : HoldsNoType t) : HoldsNoType (t ++ "\n") := by
  have hblank {w : Text} (hw : ∀ c ∈ w, c.isBlank = true) : ∀ c ∈ w ++ ("\n" : Text), c.isBlank = true :=
    List.forall_mem_append.mpr ⟨hw, by decide⟩
  cases h with
  | blank hw => exact .blank (hblank hw)
  | semicolon hv hw => exact List.append_assoc _ _ _ ▸ .semicolon hv (hblank hw)
  | head hw => exact List.append_assoc _ _ _ ▸ .head (hblank hw)
  | frame hv hw => exact List.append_assoc _ _ _ ▸ .frame hv (hblank hw)

/-- Behind the head of an alias, or without one, there is white space and perhaps a semicolon. -/
theorem HoldsNoType.of_dropHead (h : (∀ c ∈ dropHead t, c.isBlank = true) ∨
    ∃ v w : Text, (∀ c ∈ v, c.isBlank = true) ∧ (∀ c ∈ w, c.isBlank = true) ∧ dropHead t = v ++ ";" ++ w) :
    HoldsNoType t := by
  by_cases hstarts : aliasHead <+: t
  · obtain ⟨r, rfl⟩ := hstarts
    have hfront : ∀ c ∈ r.takeWhile CodePoint.isBlank, c.isBlank = true := fun c hc => List.mem_takeWhile_imp hc
    have hr : r = r.takeWhile CodePoint.isBlank ++ Text.trimStart r := List.takeWhile_append_dropWhile.symm
    rw [dropHead_append] at h
    rcases h with hblank | ⟨v, w, hv, hw, hrest⟩
    · rw [hr]
      exact .head (List.forall_mem_append.mpr ⟨hfront, hblank⟩)
    · rw [hr, hrest, ← List.append_assoc, ← List.append_assoc, ← List.append_assoc, List.append_assoc aliasHead]
      exact .frame (List.forall_mem_append.mpr ⟨hfront, hv⟩) hw
  · rw [dropHead_of_not_starts hstarts] at h
    rcases h with hblank | ⟨v, w, hv, hw, rfl⟩
    · exact .blank hblank
    · exact .semicolon hv hw

/-- Nothing that can be seen is left of an output exactly if it holds no type. -/
theorem isBlank_unwrap_iff (t : Text) : (∀ c ∈ unwrap t, c.isBlank = true) ↔ HoldsNoType t := by
  constructor
  · intro h
    rw [unwrap, isBlank_restore_iff] at h
    have hbody : HoldsNoType (dropFinalNewline t) := by
      apply HoldsNoType.of_dropHead
      rcases dropSemicolon_cases (dropHead (dropFinalNewline t)) with ⟨w, hw, ht⟩ | ht
      · exact .inr ⟨_, w, h, hw, ht⟩
      · exact .inl (ht ▸ h)
    rcases dropFinalNewline_cases t with ht | ht
    · exact ht ▸ hbody
    · exact ht ▸ hbody.append_newline
  · intro h
    cases h with
    | blank hw =>
      rw [unwrap_blank hw]
      exact isBlank_of_mem_dropFinalNewline hw
    | semicolon hv hw => rwa [unwrap_semicolon hv hw]
    | head hw =>
      rw [unwrap_head hw]
      exact fun _ hc => absurd hc List.not_mem_nil
    | frame hv hw =>
      rw [unwrap_frame hv hw]
      exact fun _ hc => absurd hc List.not_mem_nil

/-- Nothing at all is left of an output that holds no type if it begins with the frame, and of a line feed. -/
theorem unwrap_eq_nil_iff (t : Text) :
    unwrap t = [] ↔ t = [] ∨ t = "\n" ∨ HoldsNoType t ∧ (aliasHead <+: t ∨ ";" <+: t) := by
  constructor
  · intro h
    have hnone : HoldsNoType t := (isBlank_unwrap_iff t).mp (by simp [h])
    cases hnone with
    | blank hw =>
      rw [unwrap_blank hw] at h
      rcases dropFinalNewline_cases t with ht | ht
      · exact .inl (ht.trans h)
      · exact .inr (.inl (by rw [ht, h]; rfl))
    | semicolon hv hw =>
      rw [unwrap_semicolon hv hw] at h
      subst h
      exact .inr (.inr ⟨.semicolon hv hw, .inr (List.prefix_append ..)⟩)
    | head hw => exact .inr (.inr ⟨.head hw, .inl (List.prefix_append ..)⟩)
    | frame hv hw =>
      refine .inr (.inr ⟨.frame hv hw, .inl ?_⟩)
      rw [List.append_assoc, List.append_assoc]
      exact List.prefix_append ..
  · rintro (rfl | rfl | ⟨hnone, hstarts⟩)
    · decide +kernel
    · decide +kernel
    · cases hnone with
      | blank hw =>
        -- white space begins with neither
        rcases hstarts with hstarts | hstarts
        · exact absurd (hstarts.subset (by decide)) (not_mem_of_isBlank (c := CodePoint.ofChar 't') (by decide) hw)
        · exact absurd (hstarts.subset (by decide)) (not_mem_of_isBlank (c := CodePoint.ofChar ';') (by decide) hw)
      | @semicolon v w hv hw =>
        rw [unwrap_semicolon hv hw]
        cases v with
        | nil => rfl
        | cons c v =>
          have hc := hv c List.mem_cons_self
          rcases hstarts with hstarts | hstarts <;> obtain ⟨r, hr⟩ := hstarts <;> cases (List.cons.inj hr).1 <;>
            exact absurd hc (by decide)
      | head hw => exact unwrap_head hw
      | frame hv hw => exact unwrap_frame hv hw

end Wrapping

/-! ## What becomes of a type -/

namespace Outcome

variable {content : Text} {r : ProcessResult}

/-- The type is replaced by nothing exactly if the process succeeded and nothing is left of its output. -/
theorem text_ofResult_eq_nil_iff (hcontent : content ≠ []) :
    (ofResult content r).text = [] ↔ r.status = 0 ∧ (r.stdout = "\n" ∨ Wrapping.HoldsNoType r.stdout ∧
      (Wrapping.aliasHead <+: r.stdout ∨ ";" <+: r.stdout)) := by
  have hwritten : (r.stdout = "\n" ∨ Wrapping.HoldsNoType r.stdout ∧
      (Wrapping.aliasHead <+: r.stdout ∨ ";" <+: r.stdout)) → r.stdout ≠ [] := by
    intro h hempty
    rw [hempty] at h
    rcases h with h | ⟨-, h | h⟩
    · cases h
    · exact absurd h (by decide)
    · exact absurd h (by decide)
  cases hok : r.ok with
  | true =>
    obtain ⟨hstatus, hout⟩ := r.ok_iff.mp hok
    rw [ofResult_of_ok hok, Wrapping.unwrap_eq_nil_iff, or_iff_right hout, and_iff_right hstatus]
  | false =>
    rw [ofResult_of_not_ok hok]
    refine iff_of_false hcontent fun h => ?_
    rw [r.ok_iff.mpr ⟨h.1, hwritten h.2⟩] at hok
    cases hok

/-- A type that can be seen is replaced by what cannot exactly if the process succeeded with output that holds no
type. -/
theorem isBlank_ofResult_iff (hvisible : ∃ c ∈ content, c.isBlank = false) :
    (∀ c ∈ (ofResult content r).text, c.isBlank = true) ↔
      r.status = 0 ∧ r.stdout ≠ [] ∧ Wrapping.HoldsNoType r.stdout := by
  cases hok : r.ok with
  | true =>
    obtain ⟨hstatus, hout⟩ := r.ok_iff.mp hok
    rw [ofResult_of_ok hok, Wrapping.isBlank_unwrap_iff, and_iff_right hstatus, and_iff_right hout]
  | false =>
    rw [ofResult_of_not_ok hok]
    refine iff_of_false (fun h => ?_) fun h => ?_
    · obtain ⟨c, hc, hseen⟩ := hvisible
      exact absurd (h c hc) (by simp [hseen])
    · rw [r.ok_iff.mpr ⟨h.1, h.2.1⟩] at hok
      cases hok

end Outcome

namespace Service

variable {s : Service} {c : Command} {content : Text} {argv : List Text} {reply : Reply}

/-- A run that starts and finishes in time answers a type that is not in the cache, and stores what it left if it
succeeded. -/
theorem formatBlocking_of_result (hmiss : s.cache.get? content = none) (hlocated : s.locate.1 = some c)
    (hargv : s.argv c = .ok argv)
    (hreply : s.formatter s.runs.length ⟨argv, Wrapping.wrap content, some s.config.timeoutMs⟩ = reply)
    (hstart : reply.startFault = none) (hhangs : reply.hangs = false) :
    ∃ t, s.formatBlocking content = (.ok (Outcome.ofResult content (resultOf argv reply)), t) ∧
      t.cache = if (resultOf argv reply).ok then s.cache.set content (Wrapping.unwrap reply.stdout) else s.cache := by
  have hreply' : s.locate.2.formatter s.locate.2.runs.length
      ⟨argv, Wrapping.wrap content, some s.locate.2.config.timeoutMs⟩ = reply := hreply
  rw [formatBlocking_of_miss hmiss hlocated, hargv]
  simp only [runBlocking, run, hreply', hstart, hhangs, Bool.false_eq_true, if_false, conclude]
  cases hok : (resultOf argv reply).ok with
  | true =>
    rw [Outcome.ofResult_of_ok hok]
    exact ⟨_, rfl, rfl⟩
  | false =>
    rw [Outcome.ofResult_of_not_ok hok]
    exact ⟨_, rfl, rfl⟩

/-- A run that starts and finishes in time fails exactly if its status is not 0 or it wrote nothing at all, and keeps the
type with an error. Else what is left of the output is the answer and enters the cache, even where nothing is left; a
type that could be seen is seen no more exactly if the output of a success is not empty and holds no type. -/
theorem output_without_a_type_erases_the_type (hcontent : content ≠ []) (hmiss : s.cache.get? content = none)
    (hlocated : s.locate.1 = some c) (hargv : s.argv c = .ok argv)
    (hreply : s.formatter s.runs.length ⟨argv, Wrapping.wrap content, some s.config.timeoutMs⟩ = reply)
    (hstart : reply.startFault = none) (hhangs : reply.hangs = false) :
    ∃ o t, s.formatBlocking content = (.ok o, t) ∧
      (if reply.status = 0 ∧ reply.stdout ≠ [] then
        o = ⟨Wrapping.unwrap reply.stdout, none⟩ ∧ t.cache = s.cache.set content o.text
      else o = .failed content (.process (Outcome.trimmed (resultOf argv reply))) ∧ t.cache = s.cache) ∧
      (o.text = [] ↔ reply.status = 0 ∧ (reply.stdout = "\n" ∨ Wrapping.HoldsNoType reply.stdout ∧
        (Wrapping.aliasHead <+: reply.stdout ∨ ";" <+: reply.stdout))) ∧
      ((∃ d ∈ content, d.isBlank = false) →
        ((∀ d ∈ o.text, d.isBlank = true) ↔
          reply.status = 0 ∧ reply.stdout ≠ [] ∧ Wrapping.HoldsNoType reply.stdout)) := by
  obtain ⟨t, hanswer, hcache⟩ := formatBlocking_of_result hmiss hlocated hargv hreply hstart hhangs
  have hok : (resultOf argv reply).ok = true ↔ reply.status = 0 ∧ reply.stdout ≠ [] := ProcessResult.ok_iff _
  refine ⟨_, t, hanswer, ?_, Outcome.text_ofResult_eq_nil_iff hcontent, Outcome.isBlank_ofResult_iff⟩
  by_cases h : reply.status = 0 ∧ reply.stdout ≠ []
  · rw [if_pos (hok.mpr h)] at hcache
    rw [if_pos h, Outcome.ofResult_of_ok (hok.mpr h)]
    exact ⟨rfl, hcache⟩
  · have hfailed : (resultOf argv reply).ok = false := by simpa using mt hok.mp h
    rw [hfailed] at hcache
    rw [if_neg h, Outcome.ofResult_of_not_ok hfailed]
    exact ⟨rfl, hcache⟩

/-- A formatter that writes a line feed and nothing else: the type is gone, and stays so. -/
theorem line_feed_erases_the_type :
    let s := create .default { fixed := some "prettier" } (fun _ => none) fun _ _ => { stdout := "\n" }
    let content : Text := "{a:1}"
    ∃ t, s.formatBlocking content = (.ok ⟨[], none⟩, t) ∧ t.cache.get? content = some [] := by
  intro s content
  have hcontent : content ≠ [] := by decide
  have hmiss : s.cache.get? content = none := by decide +kernel
  have hlocated : s.locate.1 = some (.ofExecutable "prettier") := by decide +kernel
  have hargv : s.argv (.ofExecutable "prettier") = .ok ["prettier", "--print-width", "60", "--parser", "typescript"] := by
    decide +kernel
  obtain ⟨o, t, hanswer, hstored, herased, -⟩ :=
    output_without_a_type_erases_the_type hcontent hmiss hlocated hargv rfl rfl rfl
  rw [if_pos ⟨rfl, by decide⟩] at hstored
  obtain ⟨text, error⟩ := o
  obtain rfl : text = [] := herased.mpr ⟨rfl, .inl rfl⟩
  obtain rfl : error = none := congrArg Outcome.error hstored.1
  refine ⟨t, hanswer, ?_⟩
  rw [hstored.2]
  decide +kernel

end Service

end Legible
