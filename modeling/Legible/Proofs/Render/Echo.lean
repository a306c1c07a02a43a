import Legible.Render.Report
import Legible.Proofs.Format.Wrapping
import Legible.Proofs.Message.Grammar
import Legible.Proofs.Message.TypeLiteral
import Legible.Proofs.Service.Provenance
/-!
# A formatter that changes nothing

A formatter that writes what it reads gives every type back that survives the wrapping, so that a diagnostic is
rendered as without it. The types of a message stand in the message, and like every type they begin with no white
space: whether they survive is a matter of the marks in the message alone.

The cache is filled on the way, and a type that occurs twice is answered from it. That it holds nothing but types for
themselves is what goes from one segment to the next (`Echoes`).
-/

namespace Legible

/-! ## The types of a message -/

namespace Message

theorem not_startsBlank_of_startsLikeType {t : Text} (h : startsLikeType t = true) : ¬ t.StartsBlank := by
  rintro ⟨c, hc, hblank⟩
  obtain ⟨r, rfl⟩ := List.head?_eq_some_iff.mp hc
  have hletter : c.isLetter = false := by
    by_contra hletter
    rw [CodePoint.isBlank_of_isLetter (by simpa using hletter)] at hblank
    cases hblank
  simp only [CodePoint.isLetter, Bool.or_eq_false_iff] at hletter
  simp only [startsLikeType, Bool.or_eq_true] at h
  rcases h with (hopener | hgeneric) | harrow
  · simp only [hasOpener, Bool.or_eq_true, decide_eq_true_eq] at hopener
    rcases hopener with (rfl | rfl) | rfl <;> exact absurd hblank (by decide)
  · simp [hasGenericHead, hletter.1] at hgeneric
  · simp [hasArrowHead, List.span_eq_takeWhile_dropWhile, hletter.2] at harrow

/-- Code is a type that stands in the message. -/
theorem code_of_mem_segments {m : Text} {seg : Segment} (hseg : seg ∈ segments m) (hcode : seg.isCode = true) :
    isTypeLiteral seg.content = true ∧ seg.content <:+: m := by
  obtain ⟨part, hshow, hpart⟩ := exists_shows_of_mem_segments hseg
  cases hshow with
  | prose | span => cases hcode
  | type q hq =>
    have hinfix : q <:+: quote :: (q ++ [quote]) := ⟨[quote], [quote], rfl⟩
    exact ⟨hq, hinfix.trans hpart⟩

end Message

/-- The text comes back as it was from its alias, whether a line feed was written behind that or not. -/
def Wrapping.Survives (t : Text) : Prop := unwrap (wrap t) = t ∧ unwrap (wrap t ++ "\n") = t

/-- The types of a message without marks survive. -/
theorem Wrapping.survives_of_mem_segments {m : Text} (hm : ∀ p ∈ marks, ¬ p <:+: m) {seg : Segment}
    (hseg : seg ∈ Message.segments m) (hcode : seg.isCode = true) : Survives seg.content := by
  obtain ⟨htype, hinfix⟩ := Message.code_of_mem_segments hseg hcode
  have hmarks : ∀ p ∈ marks, ¬ p <:+: seg.content := fun p hp h => hm p hp (h.trans hinfix)
  have hstart : ¬ seg.content.StartsBlank := by
    simp only [Message.isTypeLiteral, Bool.and_eq_true] at htype
    exact Message.not_startsBlank_of_startsLikeType htype.1.2
  obtain ⟨hwrap, hfeed⟩ := unwrap_wrap seg.content
  rw [Text.trimStart_eq_self_iff.mpr hstart, (restore_sanitize_eq_self_iff _).mpr hmarks] at hwrap hfeed
  exact ⟨hwrap, hfeed⟩

/-- The run ends well and has written what it read, or that and a line feed. -/
structure Reply.Repeats (r : Reply) (stdin : Text) : Prop where
  started : r.startFault = none
  finishes : r.hangs = false
  status : r.status = 0
  stdout : r.stdout = stdin ∨ r.stdout = stdin ++ "\n"

theorem Reply.Repeats.succeeds {r : Reply} {content : Text} (h : r.Repeats (Wrapping.wrap content))
    (hs : Wrapping.Survives content) : r.Succeeds content where
  started := h.started
  status := h.status
  stdout := by rcases h.stdout with h | h <;> simp [h, Wrapping.wrap, Wrapping.aliasHead, Text.ofString]
  text := by
    rcases h.stdout with h | h <;> rw [h]
    · exact hs.1.symm
    · exact hs.2.symm

/-- The result is as expected, or an error if it is refused. -/
structure OrRefused (p : Prop) (expected result : Except Fault α) : Prop where
  refused : p → ∃ f, result = .error f
  granted : ¬ p → result = expected

section OrRefused

variable {p : Prop} {expected result : Except Fault α} (h : OrRefused p expected result)

include h

theorem OrRefused.bind (f : α → Except Fault β) : OrRefused p (expected.bind f) (result.bind f) where
  refused hr := by
    obtain ⟨e, he⟩ := h.refused hr
    exact ⟨e, by rw [he]; rfl⟩
  granted hr := by rw [h.granted hr]

theorem OrRefused.map (f : α → β) : OrRefused p (expected.map f) (result.map f) where
  refused hr := by
    obtain ⟨e, he⟩ := h.refused hr
    exact ⟨e, by rw [he]; rfl⟩
  granted hr := by rw [h.granted hr]

end OrRefused

namespace Service

variable {s : Service} {c : Command} {content : Text}

/-- The formatter repeats what it reads, and the cache holds types for themselves; it holds none if no run can be
started. -/
structure Echoes (s : Service) (c : Command) : Prop where
  located : s.locate.1 = some c
  repeats : ∀ k r, (s.formatter k r).Repeats r.stdin
  cached : ∀ content text, s.cache.get? content = some text → text = content ∧ ¬ Unusable s.config c

namespace Echoes

theorem locate (h : Echoes s c) : Echoes s.locate.2 c :=
  ⟨(Locator.locate_locate s.which s.locator).trans h.located, h.repeats, h.cached⟩

theorem runBlocking (h : Echoes s c) (hs : Wrapping.Survives content) (hu : ¬ Unusable s.config c) (argv : List Text) :
    (s.runBlocking content argv).1 = ⟨content, none⟩ ∧ Echoes (s.runBlocking content argv).2 c := by
  have hreply := h.repeats s.runs.length ⟨argv, Wrapping.wrap content, some s.config.timeoutMs⟩
  rw [runBlocking_of_succeeds hreply.finishes (hreply.succeeds hs)]
  refine ⟨rfl, h.located, h.repeats, fun other text hget => ?_⟩
  rcases Cache.get?_of_set hget with ⟨rfl, rfl⟩ | hkept
  · exact ⟨rfl, hu⟩
  · exact h.cached other text hkept

/-- A type that survives is answered by itself, from the cache or not. -/
theorem formatBlocking (h : Echoes s c) (hs : Wrapping.Survives content) :
    OrRefused (Unusable s.config c) (.ok ⟨content, none⟩) (s.formatBlocking content).1 ∧
      Echoes (s.formatBlocking content).2 c := by
  cases hhit : s.cache.get? content with
  | some text =>
    obtain ⟨rfl, hu⟩ := h.cached content text hhit
    rw [formatBlocking_of_hit hhit]
    exact ⟨⟨fun hr => absurd hr hu, fun _ => rfl⟩, h⟩
  | none =>
    have hargv := argv_eq_error_iff (s := s) c
    rw [formatBlocking_of_miss hhit h.located]
    cases ha : s.argv c with
    | error f => exact ⟨⟨fun _ => ⟨f, rfl⟩, fun hu => absurd (hargv.mp ⟨f, ha⟩) hu⟩, h.locate⟩
    | ok argv =>
      have hu : ¬ Unusable s.config c := fun hu => by
        obtain ⟨f, hf⟩ := hargv.mpr hu
        cases ha.symm.trans hf
      obtain ⟨ho, hecho⟩ := h.locate.runBlocking hs hu argv
      exact ⟨⟨fun hr => absurd hr hu, fun _ => congrArg Except.ok ho⟩, hecho⟩

theorem formatSegments (h : Echoes s c) {segs : List Segment}
    (hs : ∀ seg ∈ segs, seg.isCode = true → Wrapping.Survives seg.content) :
    OrRefused ((∃ seg ∈ segs, seg.isCode = true) ∧ Unusable s.config c) (.ok (segs, [])) (s.formatSegments segs).1 ∧
      (s.formatSegments segs).2.config = s.config := by
  -- what one segment leaves in the cache may answer the next one
  induction segs generalizing s with
  | nil => exact ⟨⟨fun ⟨⟨_, hmem, _⟩, _⟩ => absurd hmem List.not_mem_nil, fun _ => rfl⟩, rfl⟩
  | cons seg rest ih =>
    have hrest : ∀ seg ∈ rest, seg.isCode = true → Wrapping.Survives seg.content :=
      fun seg hseg => hs seg (List.mem_cons_of_mem _ hseg)
    by_cases hcode : seg.isCode = true
    · obtain ⟨hanswer, ht⟩ := h.formatBlocking (hs seg List.mem_cons_self hcode)
      obtain ⟨_, _, _, _, haside⟩ := formatBlocking_aside s seg.content
      rcases hp : s.formatBlocking seg.content with ⟨res, t⟩
      rw [hp] at hanswer ht haside
      have hconfig : t.config = s.config := by rw [show t = _ from haside]
      by_cases hu : Unusable s.config c
      · obtain ⟨f, rfl⟩ := hanswer.refused hu
        rw [Service.formatSegments, if_pos hcode, hp]
        exact ⟨⟨fun _ => ⟨f, rfl⟩, fun hr => absurd ⟨⟨seg, List.mem_cons_self, hcode⟩, hu⟩ hr⟩, hconfig⟩
      · obtain rfl := hanswer.granted hu
        obtain ⟨hformatted, hsame⟩ := ih ht hrest
        have hok := hformatted.granted fun hr => hu (hconfig ▸ hr.2)
        rw [Service.formatSegments, if_pos hcode, hp]
        refine ⟨⟨fun hr => absurd hr.2 hu, fun _ => ?_⟩, hsame.trans hconfig⟩
        dsimp only
        rw [hok]
        cases seg <;> rfl
    · obtain ⟨hformatted, hsame⟩ := ih h hrest
      have hsegs : (∃ seg' ∈ seg :: rest, seg'.isCode = true) ↔ ∃ seg' ∈ rest, seg'.isCode = true := by
        simp [hcode]
      rw [Service.formatSegments, if_neg hcode, hsegs]
      exact ⟨hformatted.map fun p => (seg :: p.1, p.2), hsame⟩

end Echoes

/-- If the formatter ends well and writes what it read, with a line feed behind it or without, a diagnostic without marks
in its message is rendered with blocking runs as without a formatter. It is refused, moreover, if it holds a type and the
settings let no run be started. -/
theorem unchanged_types_are_rendered_plainly (config : Config) (locator : Locator) (which : Which)
    (formatter : Formatter) (hlocated : (create config locator which formatter).locate.1 = some c)
    (hrepeats : ∀ k r, (formatter k r).Repeats r.stdin) (d : Diagnostic)
    (hmarks : ∀ p ∈ Wrapping.marks, ¬ p <:+: d.message) :
    OrRefused ((∃ seg ∈ Message.segments d.message, seg.isCode = true) ∧ Unusable config c) (reportPlain config d)
      ((create config locator which formatter).reportBlocking d).1 := by
  have hechoes : Echoes (create config locator which formatter) c := by
    refine ⟨hlocated, hrepeats, fun content text hget => ?_⟩
    cases (get?_create config locator which formatter content).symm.trans hget
  obtain ⟨hformatted, hconfig⟩ := hechoes.formatSegments fun seg => Wrapping.survives_of_mem_segments hmarks
  unfold reportBlocking
  generalize (create config locator which formatter).formatSegments _ = p at hformatted hconfig
  obtain ⟨result, t⟩ := p
  have hreport := hformatted.bind fun q => Report.of t.config d q.1 q.2
  rw [show t.config = config from hconfig] at hreport
  dsimp only
  rw [show t.config = config from hconfig]
  exact hreport

/-- A message with two types is rendered plainly; under a deadline beyond all clocks it is refused. -/
theorem echoed_types_are_rendered_plainly :
    let echo : Formatter := fun k r => { stdout := if k = 0 then r.stdin ++ "\n" else r.stdin }
    let d : Diagnostic :=
      { message := "Type '{ a: string; b: number; c: boolean }' is no '{ a: string; b: ...; d: boolean }'." }
    let beyond : Config := { Config.default with timeoutMs := 10 ^ 200 * 10 ^ 200 }
    let service (config : Config) := create config { fixed := some "fmt" } (fun _ => none) echo
    (∀ k r, (echo k r).Repeats r.stdin) ∧ (∀ p ∈ Wrapping.marks, ¬ p <:+: d.message) ∧
      (∃ c, (service .default).locate.1 = some c ∧ (service beyond).locate.1 = some c) ∧
      (∃ r, reportPlain .default d = .ok r ∧ ((service .default).reportBlocking d).1 = .ok r) ∧
      ∃ f, ((service beyond).reportBlocking d).1 = .error f := by
  intro echo d beyond service
  have hrepeats (k : Nat) (r : Run) : (echo k r).Repeats r.stdin := by
    refine ⟨rfl, rfl, rfl, ?_⟩
    by_cases hk : k = 0
    · exact .inr (if_pos hk)
    · exact .inl (if_neg hk)
  have hmarks : ∀ p ∈ Wrapping.marks, ¬ p <:+: d.message := by decide +kernel
  have hlocated : (service .default).locate.1 = some (.ofExecutable "fmt") := rfl
  have hlocated' : (service beyond).locate.1 = some (.ofExecutable "fmt") := rfl
  refine ⟨hrepeats, hmarks, ⟨_, hlocated, hlocated'⟩, ?_, ?_⟩
  · obtain ⟨v, hv⟩ : ∃ v, View.ofDiagnostic d (Message.segments d.message) Config.default.title = .ok v :=
      View.exists_ofDiagnostic_iff.mpr fun ⟨_, hcode, _⟩ => nomatch hcode
    have hplain : reportPlain .default d = .ok _ := Report.of_eq_ok_iff.mpr ⟨v, hv, rfl⟩
    refine ⟨_, hplain, ((unchanged_types_are_rendered_plainly _ _ _ _ hlocated hrepeats d hmarks).granted ?_).trans hplain⟩
    rintro ⟨_, hwide | hbeyond⟩
    · revert hwide
      decide +kernel
    · revert hbeyond
      decide +kernel
  · refine (unchanged_types_are_rendered_plainly _ _ _ _ hlocated' hrepeats d hmarks).refused ?_
    exact ⟨by decide +kernel, unusable_beyond _⟩

end Service

end Legible
