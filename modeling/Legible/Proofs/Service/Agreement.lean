import Legible.Proofs.Service.Awaited
import Legible.Proofs.Service.Timely
/-!
# Blocking runs and runs on the clock agree

A blocking run answers a type from the cache or by a run of its own, one type after the other. On the clock a type
that occurs twice is formatted twice at once, the answers come in any order, and the cache is filled and emptied at
other times. But if the formatter is a function of its command line and its input, every answer is the one that is
expected, on either side, and so the reports agree.
-/

namespace Legible

/-- Two reports say the same, if the order of the errors does not count. -/
structure Report.Agrees (r r' : Report) : Prop where
  diagnostic : r.diagnostic = r'.diagnostic
  view : r.view = r'.view
  segments : r.segments = r'.segments
  errors : r.errors.Perm r'.errors

namespace Segment

variable (expect : Text → Except Fault Outcome)

/-- What a segment is answered with, if it is code. -/
def answer? (seg : Segment) : Option Outcome :=
  if seg.isCode then (expect seg.content).toOption else none

/-- The segment with its answer. -/
def answered (seg : Segment) : Segment :=
  ((seg.answer? expect).map fun o => seg.withContent o.text).getD seg

/-- The errors among the answers of segments. -/
def errors (segments : List Segment) : List Text :=
  segments.filterMap fun seg => (seg.answer? expect).bind (·.error)

theorem errors_cons (seg : Segment) (rest : List Segment) :
    errors expect (seg :: rest) = ((seg.answer? expect).bind (·.error)).toList ++ errors expect rest := by
  unfold errors
  rw [List.filterMap_cons]
  cases (seg.answer? expect).bind (·.error) <;> rfl

end Segment

namespace Service

variable {verdict : List Text → Text → Verdict} {expect : Text → Except Fault Outcome} {s : Service} {f : Fault}
  {content : Text} {config : Config} {d : Diagnostic} {ds : List Diagnostic} {r r' : Report}

/-- A type among the segments is refused. -/
def Refused (expect : Text → Except Fault Outcome) (f : Fault) (segments : List Segment) : Prop :=
  ∃ seg ∈ segments, seg.isCode = true ∧ expect seg.content = .error f

theorem refused_cons {seg : Segment} {rest : List Segment} :
    Refused expect f (seg :: rest) ↔ (seg.isCode = true ∧ expect seg.content = .error f) ∨ Refused expect f rest := by
  simp [Refused]

/-- No report is made of the diagnostic: its code has too many digits, or one of its types is refused. -/
def Unrendered (expect : Text → Except Fault Outcome) (f : Fault) (d : Diagnostic) : Prop :=
  d.HasWideCode ∧ f = .code .tooWide ∨ Refused expect f (Message.segments d.message)

/-- The report of a diagnostic whose types are all answered as expected. -/
structure Renders (expect : Text → Except Fault Outcome) (config : Config) (d : Diagnostic) (r : Report) : Prop where
  diagnostic : r.diagnostic = d
  view : View.ofDiagnostic d r.segments config.title = .ok r.view
  segments : r.segments = (Message.segments d.message).map (Segment.answered expect)
  errors : r.errors.Perm (Segment.errors expect (Message.segments d.message))

/-- What is expected of a list of diagnostics: their reports, up to the first of which none is made. -/
inductive Expects (expect : Text → Except Fault Outcome) (config : Config) :
    List Diagnostic → Except Fault (List Report) → Prop
  | nil : Expects expect config [] (.ok [])
  | stop {f : Fault} {d : Diagnostic} {ds : List Diagnostic} :
      Unrendered expect f d → Expects expect config (d :: ds) (.error f)
  | next {r : Report} {d : Diagnostic} {ds : List Diagnostic} {result : Except Fault (List Report)} :
      (∀ f, ¬ Unrendered expect f d) → Renders expect config d r → Expects expect config ds result →
      Expects expect config (d :: ds) (result.map (r :: ·))

theorem Renders.agrees (h : Renders expect config d r) (h' : Renders expect config d r') : r.Agrees r' := by
  have hsegments : r.segments = r'.segments := h.segments.trans h'.segments.symm
  have hview := h.view
  rw [hsegments] at hview
  exact ⟨h.diagnostic.trans h'.diagnostic.symm, Except.ok.inj (hview.symm.trans h'.view), hsegments,
    h.errors.trans h'.errors.symm⟩

/-- Two results that are expected of the same diagnostics agree, or they end at the same one. -/
theorem Expects.agree {result result' : Except Fault (List Report)} (h : Expects expect config ds result)
    (h' : Expects expect config ds result') :
    (∃ rs rs', result = .ok rs ∧ result' = .ok rs' ∧ List.Forall₂ (Renders expect config) ds rs ∧
      List.Forall₂ Report.Agrees rs rs') ∨
    ∃ d ∈ ds, ∃ f f', result = .error f ∧ result' = .error f' ∧ Unrendered expect f d ∧ Unrendered expect f' d := by
  induction h generalizing result' with
  | nil =>
    cases h'
    exact .inl ⟨[], [], rfl, rfl, .nil, .nil⟩
  | stop hwhy =>
    cases h' with
    | stop hwhy' => exact .inr ⟨_, List.mem_cons_self, _, _, rfl, rfl, hwhy, hwhy'⟩
    | next hnone => exact absurd hwhy (hnone _)
  | next hnone hr _ ih =>
    cases h' with
    | stop hwhy' => exact absurd hwhy' (hnone _)
    | next _ hr' hrest =>
      rcases ih hrest with ⟨rs, rs', rfl, rfl, hrenders, hagrees⟩ | ⟨d, hd, f, f', rfl, rfl, hwhy, hwhy'⟩
      · exact .inl ⟨_, _, rfl, rfl, .cons hr hrenders, .cons (hr.agrees hr') hagrees⟩
      · exact .inr ⟨d, List.mem_cons_of_mem _ hd, f, f', rfl, rfl, hwhy, hwhy'⟩

/-! ## Blocking runs -/

/-- What it comes to if the code among segments is formatted with blocking runs. -/
structure Formats (verdict : List Text → Text → Verdict) (expect : Text → Except Fault Outcome) (s : Service)
    (segments : List Segment) (p : Except Fault (List Segment × List Text) × Service) : Prop where
  faithful : Faithful verdict expect p.2
  config : p.2.config = s.config
  result : (∃ f, p.1 = .error f ∧ Refused expect f segments) ∨
    p.1 = .ok (segments.map (Segment.answered expect), Segment.errors expect segments) ∧ ∀ f, ¬ Refused expect f segments

/-- One more segment has its answer, if it is code, and the others follow. -/
theorem Formats.cons {t : Service} {seg : Segment} {rest : List Segment}
    {p : Except Fault (List Segment × List Text) × Service} (h : Formats verdict expect t rest p)
    (hconfig : t.config = s.config) (hgranted : ∀ f, ¬ (seg.isCode = true ∧ expect seg.content = .error f)) :
    Formats verdict expect s (seg :: rest) (p.1.map fun q =>
      (seg.answered expect :: q.1, ((seg.answer? expect).bind (·.error)).toList ++ q.2), p.2) where
  faithful := h.faithful
  config := h.config.trans hconfig
  result := by
    rcases h.result with ⟨f, hf, hrefused⟩ | ⟨hok, hnone⟩
    · exact .inl ⟨f, by rw [hf]; rfl, refused_cons.mpr (.inr hrefused)⟩
    · refine .inr ⟨?_, fun f hrefused => (refused_cons.mp hrefused).elim (hgranted f) (hnone f)⟩
      rw [hok, Segment.errors_cons]
      rfl

namespace Faithful

/-- There is one reason to refuse anything. -/
theorem fault_unique (h : Faithful verdict expect s) (content content' : Text) (f f' : Fault)
    (hf : expect content = .error f) (hf' : expect content' = .error f') : f = f' := by
  cases hc : s.locate.1 with
  | none => cases (h.expect_of_not_found hc content).symm.trans hf
  | some c =>
    cases ha : s.argv c with
    | error g =>
      cases (h.expect_of_fault hc ha content).symm.trans hf
      cases (h.expect_of_fault hc ha content').symm.trans hf'
      rfl
    | ok argv => cases (h.expect_of_argv hc ha content).symm.trans hf

/-- Only settings that no run can be started under refuse anything. -/
theorem unusable (h : Faithful verdict expect s) (hf : expect content = .error f) : ∃ c, Unusable s.config c := by
  cases hc : s.locate.1 with
  | none => cases (h.expect_of_not_found hc content).symm.trans hf
  | some c =>
    refine ⟨c, (argv_eq_error_iff c).mp ?_⟩
    cases ha : s.argv c with
    | error g => exact ⟨g, rfl⟩
    | ok argv => cases (h.expect_of_argv hc ha content).symm.trans hf

theorem runBlocking (h : Faithful verdict expect s) {argv : List Text}
    (hexpect : expect content = .ok ((verdict argv (Wrapping.wrap content)).outcome content argv)) :
    expect content = .ok (s.runBlocking content argv).1 ∧ Faithful verdict expect (s.runBlocking content argv).2 := by
  have hgives := h.follows s.runs.length ⟨argv, Wrapping.wrap content, some s.config.timeoutMs⟩
  unfold Service.runBlocking Service.run
  dsimp only
  generalize s.formatter s.runs.length ⟨argv, Wrapping.wrap content, some s.config.timeoutMs⟩ = r at hgives
  have hrun (runs : List Run) : Faithful verdict expect { s with runs } := h.congr rfl rfl rfl rfl
  rcases Gives.cases hgives content argv with ⟨reason, hreason, hout⟩ | ⟨hstart, ⟨hhangs, _, hout⟩ | ⟨hhangs, _, _, hout⟩⟩
  · rw [hreason]
    exact ⟨by rw [hexpect, hout], h.congr rfl rfl rfl rfl⟩
  · rw [hstart]
    dsimp only
    rw [if_neg (by simp [hhangs])]
    obtain ⟨ho, hfaithful⟩ := (hrun _).conclude (hexpect.trans (congrArg Except.ok hout))
    exact ⟨by rw [hexpect, hout, ho], hfaithful⟩
  · rw [hstart]
    dsimp only
    rw [if_pos hhangs]
    exact ⟨by rw [hexpect, hout], hrun _⟩

/-- A blocking run answers as expected, from the cache or not. -/
theorem formatBlocking (h : Faithful verdict expect s) (content : Text) :
    (s.formatBlocking content).1 = expect content ∧ Faithful verdict expect (s.formatBlocking content).2 := by
  unfold Service.formatBlocking
  split
  · rename_i text hhit
    exact ⟨(h.cached content text hhit).symm, h⟩
  · rcases hl : s.locate with ⟨found, u⟩
    have hc : s.locate.1 = found := congrArg Prod.fst hl
    obtain rfl : s.locate.2 = u := congrArg Prod.snd hl
    cases found with
    | none => exact ⟨(h.expect_of_not_found hc content).symm, h.locate⟩
    | some c =>
      dsimp only
      split
      · rename_i f hf
        exact ⟨(h.expect_of_fault hc hf content).symm, h.locate⟩
      · rename_i argv ha
        obtain ⟨ho, hfaithful⟩ := h.locate.runBlocking (h.expect_of_argv hc ha content)
        exact ⟨ho.symm, hfaithful⟩

theorem formatSegments (h : Faithful verdict expect s) (segments : List Segment) :
    Formats verdict expect s segments (s.formatSegments segments) := by
  induction segments generalizing s with
  | nil => exact ⟨h, rfl, .inr ⟨rfl, by rintro f ⟨_, ⟨⟩, _⟩⟩⟩
  | cons seg rest ih =>
    by_cases hcode : seg.isCode = true
    · obtain ⟨hanswer, ht⟩ := h.formatBlocking seg.content
      obtain ⟨_, _, _, _, haside⟩ := formatBlocking_aside s seg.content
      rcases hp : s.formatBlocking seg.content with ⟨res, t⟩
      rw [hp] at hanswer ht haside
      have hconfig : t.config = s.config := by rw [show t = _ from haside]
      cases res with
      | error f =>
        have heq : s.formatSegments (seg :: rest) = (.error f, t) := by
          rw [Service.formatSegments, if_pos hcode, hp]
        rw [heq]
        exact ⟨ht, hconfig, .inl ⟨f, rfl, refused_cons.mpr (.inl ⟨hcode, hanswer.symm⟩)⟩⟩
      | ok o =>
        have ho : seg.answer? expect = some o := by
          rw [Segment.answer?, if_pos hcode, ← hanswer]
          rfl
        have hgranted (f : Fault) (hf : seg.isCode = true ∧ expect seg.content = .error f) : False := by
          cases hanswer.trans hf.2
        have hrest := (ih ht).cons hconfig hgranted
        rw [Segment.answered, ho] at hrest
        rw [Service.formatSegments, if_pos hcode, hp]
        exact hrest
    · have hnone : seg.answer? expect = none := if_neg hcode
      have htext (f : Fault) (hf : seg.isCode = true ∧ expect seg.content = .error f) : False := hcode hf.1
      have hrest := (ih h).cons rfl htext
      rw [Segment.answered, hnone] at hrest
      rw [Service.formatSegments, if_neg hcode]
      exact hrest

theorem reportBlocking (h : Faithful verdict expect s) (d : Diagnostic) :
    Faithful verdict expect (s.reportBlocking d).2 ∧ (s.reportBlocking d).2.config = s.config ∧
    ((∃ f, (s.reportBlocking d).1 = .error f ∧ Unrendered expect f d) ∨
      ∃ r, (s.reportBlocking d).1 = .ok r ∧ Renders expect s.config d r ∧ ∀ f, ¬ Unrendered expect f d) := by
  obtain ⟨hfaithful, hconfig, hformatted⟩ := h.formatSegments (Message.segments d.message)
  unfold Service.reportBlocking
  generalize s.formatSegments (Message.segments d.message) = p at hfaithful hconfig hformatted
  obtain ⟨res, t⟩ := p
  refine ⟨hfaithful, hconfig, ?_⟩
  rcases hformatted with ⟨f, rfl, hrefused⟩ | ⟨rfl, hnone⟩
  · exact .inl ⟨f, rfl, .inr hrefused⟩
  change (∃ f, Report.of t.config d _ _ = .error f ∧ _) ∨ ∃ r, Report.of t.config d _ _ = .ok r ∧ _
  rw [show t.config = s.config from hconfig]
  cases hr : Report.of s.config d ((Message.segments d.message).map (Segment.answered expect))
    (Segment.errors expect (Message.segments d.message)) with
  | error f =>
    obtain ⟨rfl, hwide⟩ := Report.of_eq_error_iff.mp hr
    exact .inl ⟨_, rfl, .inl ⟨hwide, rfl⟩⟩
  | ok r =>
    obtain ⟨v, hv, rfl⟩ := Report.of_eq_ok_iff.mp hr
    refine .inr ⟨_, rfl, ⟨rfl, hv, rfl, .refl _⟩, fun f hwhy => hwhy.elim ?_ (hnone f)⟩
    exact fun hwide => View.not_wide_of_eq_ok hv hwide.1

/-- Blocking runs give the reports that are expected. -/
theorem reportAllBlocking (h : Faithful verdict expect s) (ds : List Diagnostic) :
    Expects expect s.config ds (s.reportAllBlocking ds).1 := by
  unfold Service.reportAllBlocking
  induction ds generalizing s with
  | nil => exact .nil
  | cons d rest ih =>
    obtain ⟨hfaithful, hconfig, ⟨f, hf, hwhy⟩ | ⟨r, hr, hrenders, hnone⟩⟩ := h.reportBlocking d
    · rw [fst_reportEach_of_error hf]
      exact .stop hwhy
    · rw [reportEach_of_ok (u := (s.reportBlocking d).2) (Prod.ext hr rfl)]
      exact .next hnone hrenders (hconfig ▸ ih hfaithful)

end Faithful

/-! ## Runs on the clock -/

section Own

variable {answer : Nat → Option Outcome} {segments : List Segment}
  (h : ∀ place seg, segments[place]? = some seg → answer place = seg.answer? expect)

include h

theorem fill_eq_map_answered : fill answer segments = segments.map (Segment.answered expect) := by
  refine List.ext_getElem? fun i => ?_
  simp only [fill, List.getElem?_mapIdx, List.getElem?_map]
  cases hseg : segments[i]? with
  | none => rfl
  | some seg =>
    rw [Option.map_some, Option.map_some, h i seg hseg, Segment.answered]
    cases seg.answer? expect <;> rfl

theorem answerErrors_codePlaces : answerErrors answer (codePlaces segments) = Segment.errors expect segments := by
  -- both sides go through the segments with their places
  have hfirst : segments.zipIdx.map (·.1) = segments := List.zipIdx_map_fst 0 segments
  unfold answerErrors codePlaces Segment.errors
  conv => rhs; rw [← hfirst]
  rw [List.filterMap_map, List.filterMap_filter, List.filterMap_map]
  refine List.filterMap_congr fun x hx => ?_
  have hx' := h x.2 x.1 (List.mem_zipIdx_iff_getElem?.mp hx)
  simp only [Function.comp_apply, hx']
  split
  · rfl
  · rename_i htext
    rw [Segment.answer?, if_neg htext]
    rfl

end Own

/-- A report of its own is as expected if all that jobs have told is. -/
theorem IsOwn.renders {jobs : List Job} (h : IsOwn jobs config r)
    (htold : ∀ j ∈ jobs, ∀ o ∈ j.told, expect j.content = .ok o) :
    Renders expect config r.diagnostic r ∧ ∀ f, ¬ Unrendered expect f r.diagnostic := by
  obtain ⟨n, answer, hsegments, herrors, hall⟩ := h.answers
  have hcode {place : Nat} {seg : Segment} (hseg : (Message.segments r.diagnostic.message)[place]? = some seg)
      (hcode : seg.isCode = true) : ∃ o, expect seg.content = .ok o ∧ answer place = some o := by
    have hplace := hall place seg hseg
    rw [if_pos hcode] at hplace
    obtain ⟨j, hj, _, hcontent, o, ho, ha⟩ := hplace
    exact ⟨o, hcontent ▸ htold j hj o ho, ha⟩
  have hanswer (place : Nat) (seg : Segment) (hseg : (Message.segments r.diagnostic.message)[place]? = some seg) :
      answer place = seg.answer? expect := by
    by_cases hc : seg.isCode = true
    · obtain ⟨o, hexpect, ha⟩ := hcode hseg hc
      rw [ha, Segment.answer?, if_pos hc, hexpect]
      rfl
    · have hplace := hall place seg hseg
      rw [if_neg hc] at hplace
      rw [hplace, Segment.answer?, if_neg hc]
  refine ⟨⟨rfl, h.view, ?_, ?_⟩, ?_⟩
  · rw [hsegments, fill_eq_map_answered hanswer]
  · rw [← answerErrors_codePlaces hanswer]
    exact herrors
  · rintro f (⟨hwide, _⟩ | ⟨seg, hseg, hc, hrefuse⟩)
    · exact View.not_wide_of_eq_ok h.view hwide
    obtain ⟨place, hplace⟩ := List.getElem?_of_mem hseg
    obtain ⟨o, hexpect, _⟩ := hcode hplace hc
    cases hexpect.symm.trans hrefuse

theorem Timely.told (h : Timely verdict expect s) (hs : Sound (s.ledger 0)) : ∀ j ∈ s.jobs, ∀ o ∈ j.told,
    expect j.content = .ok o := by
  intro j hj o ho
  obtain ⟨n, hn⟩ := List.getElem?_of_mem hj
  rw [hs.told n j hn, Option.mem_toList] at ho
  rcases h.jobs n j hn with ⟨o', ho', hexpect⟩ | ⟨hnone, _⟩
  · cases ho.symm.trans ho'
    exact hexpect
  · cases ho.symm.trans hnone

/-- Runs on the clock give the reports that are expected. -/
theorem Between.expects {diagnostics : Nat → Diagnostic} (h : Between diagnostics s) (ht : Timely verdict expect s)
    {shows : List Shown} (hnames : ∀ shown ∈ shows, shown.diagnostic = diagnostics shown.handle)
    (hmessages : ∀ shown ∈ shows, shown.diagnostic.message ≠ []) :
    Expects expect s.config (shows.map (·.diagnostic)) (Service.reportEach reportOnClock s shows).1 := by
  induction shows generalizing s with
  | nil => exact .nil
  | cons shown rest ih =>
    have hname := hnames shown List.mem_cons_self
    have hne := hmessages shown List.mem_cons_self
    by_cases hwide : shown.diagnostic.HasWideCode
    · rw [fst_reportEach_of_error (fst_reportOnClock_of_error (displayAwaited_of_wide hwide hne s))]
      exact .stop (.inl ⟨hwide, rfl⟩)
    by_cases hask : ∃ seg ∈ Message.segments shown.diagnostic.message, seg.isCode = true ∧ ∃ f, s.Refuses seg.content f
    · obtain ⟨seg, hseg, hcode, f, hrefuse⟩ := hask
      have herr := displayAwaited_of_refuses h.takes h.onClock hne hwide hseg hcode hrefuse
      obtain ⟨_, c, hc, hf⟩ := hrefuse
      rw [fst_reportEach_of_error (fst_reportOnClock_of_error herr)]
      exact .stop (.inr ⟨seg, hseg, hcode, ht.expect_of_fault hc hf seg.content⟩)
    · obtain ⟨r, u, hr, hd, hu, hconfig, hown, _⟩ := h.report_of_message hname hne hwide
        fun seg hseg hcode f hrefuse => hask ⟨seg, hseg, hcode, f, hrefuse⟩
      have hu' : u = (s.displayAwaited shown).2 := by rw [← snd_reportOnClock, hr]
      have htu : Timely verdict expect u := hu' ▸ ht.displayAwaited h.noneReady shown
      obtain ⟨hrenders, hnone⟩ := hown.renders (htu.told hu.sound)
      rw [hd] at hrenders hnone
      rw [reportEach_of_ok hr]
      exact .next hnone hrenders (hconfig ▸ ih hu htu (fun d hd => hnames d (List.mem_cons_of_mem _ hd))
        fun d hd => hmessages d (List.mem_cons_of_mem _ hd))

/-- If the formatter is a function of its command line and its input, blocking runs and runs on the clock render
diagnostics alike: title, lines and segments are the same, and so are the errors but for their order. Both end at the
same diagnostic, if its code has too many digits or the settings let no run be started for one of its types. -/
theorem blocking_and_clock_agree (config : Config) (locator : Locator) (which : Which) (f g : Formatter)
    (verdict : List Text → Text → Verdict) (hf : Follows f config.timeoutMs verdict)
    (hg : Follows g config.timeoutMs verdict) (ds : List Diagnostic) (hmessages : ∀ d ∈ ds, d.message ≠ []) :
    let expect := (create config locator which f).expected verdict
    let blocking := ((create config locator which f).reportAllBlocking ds).1
    let onClock := ((create config locator which g).reportAllOnClock ds).1
    (∃ rs rs', blocking = .ok rs ∧ onClock = .ok rs' ∧ List.Forall₂ (Renders expect config) ds rs ∧
      List.Forall₂ Report.Agrees rs rs') ∨
    ∃ d ∈ ds, ∃ fault fault', blocking = .error fault ∧ onClock = .error fault' ∧
      Unrendered expect fault d ∧ Unrendered expect fault' d ∧ (¬ d.HasWideCode → fault = fault') ∧
      ∀ fault, Refused expect fault (Message.segments d.message) → ∃ c, Unusable config c := by
  intro expect blocking onClock
  have hblocking : Faithful verdict expect (create config locator which f) := faithful_create config locator which hf
  have hclock : Timely verdict expect (create config locator which g) := timely_create config locator which hg
  have hb := hblocking.reportAllBlocking ds
  have hbetween : Between (fun n => (ds[n]?).getD { message := [] }) (create config locator which g) :=
    between_create ..
  have hds := diagnostics_zipIdx ds
  have hc := hbetween.expects hclock (names_zipIdx ds) fun shown hshown =>
    hmessages _ (hds ▸ List.mem_map_of_mem hshown)
  rw [hds] at hc
  rcases hb.agree hc with hagree | ⟨d, hd, fault, fault', hfault, hfault', hwhy, hwhy'⟩
  · exact .inl hagree
  · refine .inr ⟨d, hd, fault, fault', hfault, hfault', hwhy, hwhy', ?_, ?_⟩
    · intro hwide
      obtain ⟨_, _, _, hrefuse⟩ := hwhy.resolve_left fun h => hwide h.1
      obtain ⟨_, _, _, hrefuse'⟩ := hwhy'.resolve_left fun h => hwide h.1
      exact hblocking.fault_unique _ _ _ _ hrefuse hrefuse'
    · rintro _ ⟨_, _, _, hrefuse⟩
      exact hblocking.unusable hrefuse

/-- One type is late, one occurs three times, and one cannot be formatted; the runs on the clock take their time. -/
theorem repeated_and_failed_types_agree :
    let late : Text := "{ name: number; size: number }"
    let named : Text := "{ name: string; size: number }"
    let verdict : List Text → Text → Verdict := fun _ stdin =>
      if stdin = Wrapping.wrap named then .finished 0 "type __TSErrorsType__ = Named;\n" []
      else if stdin = Wrapping.wrap late then .unfinished
      else .notStarted
    let formatter (delay : Nat) : Formatter := fun _ r =>
      (verdict r.argv r.stdin).reply delay Config.default.timeoutMs
    let errors : List (List Text) := [["Prettier timed out"], ["Failed to start prettier job"]]
    let ds : List Diagnostic :=
      [{ message := "Type '" ++ late ++ "' is not assignable to type '" ++ named ++ "'." },
        { message := "Type '" ++ named ++ "' or '" ++ named ++ "' is no '{ name: boolean; size: number }'." }]
    let service (delay : Nat) := create .default { fixed := some "prettier" } (fun _ => none) (formatter delay)
    (∀ delay < Config.default.timeoutMs, Follows (formatter delay) Config.default.timeoutMs verdict) ∧
      (∀ d ∈ ds, d.message ≠ []) ∧
      ∃ rs rs', ((service 0).reportAllBlocking ds).1 = .ok rs ∧ ((service 9).reportAllOnClock ds).1 = .ok rs' ∧
        List.Forall₂ Report.Agrees rs rs' ∧ rs.map (·.errors) = errors := by
  intro late named verdict formatter errors ds service
  have hfollows (delay : Nat) (h : delay < Config.default.timeoutMs) :
      Follows (formatter delay) Config.default.timeoutMs verdict :=
    fun _ r => Verdict.gives_reply h (verdict r.argv r.stdin)
  have hmessages : ∀ d ∈ ds, d.message ≠ [] := by decide
  have hreports : ((service 0).reportAllBlocking ds).1.toOption.map (·.map (·.errors)) = some errors := by
    decide +kernel
  have hagree := blocking_and_clock_agree .default { fixed := some "prettier" } (fun _ => none) (formatter 0)
    (formatter 9) verdict (hfollows 0 (by decide)) (hfollows 9 (by decide)) ds hmessages
  refine ⟨hfollows, hmessages, ?_⟩
  rcases hagree with ⟨rs, rs', hb, hc, _, hall⟩ | ⟨_, _, fault, _, hb, _⟩
  · rw [show ((service 0).reportAllBlocking ds).1 = .ok rs from hb] at hreports
    exact ⟨rs, rs', hb, hc, hall, Option.some.inj hreports⟩
  · rw [show ((service 0).reportAllBlocking ds).1 = .error fault from hb] at hreports
    cases hreports

end Service

end Legible
