import Legible.Proofs.Service.Handling
import Legible.Proofs.Service.Showing
/-!
# What is shown hangs together

At any time, the rendering is that of the diagnostic on display with the segments on display, and these are the
segments of its message, in which a type may have given way to a text that was delivered for that very type.
A program that fails to take a rendering, batches of earlier showings and types that never come back change
nothing about that. All it takes is that a handle stands for one diagnostic. One whose code has too many digits has no
rendering, and what was seen before it stays.
-/

namespace Legible

/-- The segments of a message as far as they are formatted: text stays, and code is as it was or as a job told
that was asked for it. -/
structure Formatted (jobs : List Job) (raw segments : List Segment) : Prop where
  length : segments.length = raw.length
  kinds : segments.map Segment.kind = raw.map Segment.kind
  langs : segments.map Segment.lang = raw.map Segment.lang
  text : ∀ (place : Nat) (seg : Segment), raw[place]? = some seg → seg.isCode = false →
    segments[place]? = some seg
  code : ∀ (place : Nat) (seg : Segment), raw[place]? = some seg → seg.isCode = true →
    ∃ seg', segments[place]? = some seg' ∧ (seg'.content = seg.content ∨
      ∃ j ∈ jobs, j.content = seg.content ∧ ∃ o ∈ j.told, seg'.content = o.text)

@[simp] theorem Segment.content_withContent (s : Segment) (t : Text) : (s.withContent t).content = t := by
  cases s <;> rfl

theorem formatted_refl (jobs : List Job) (raw : List Segment) : Formatted jobs raw raw :=
  ⟨rfl, rfl, rfl, fun _ _ h _ => h, fun _ seg h _ => ⟨seg, h, .inl rfl⟩⟩

section Fill

variable {answer : Nat → Option Outcome} {segments : List Segment} {place : Nat} {seg : Segment}

theorem getElem?_fill_of_none (h : segments[place]? = some seg) (hnone : answer place = none) :
    (fill answer segments)[place]? = some seg := by
  simp [fill, h, hnone]

theorem getElem?_fill_of_some (h : segments[place]? = some seg) {o : Outcome} (ho : answer place = some o) :
    (fill answer segments)[place]? = some (seg.withContent o.text) := by
  simp [fill, h, ho]

@[simp] theorem length_fill : (fill answer segments).length = segments.length :=
  List.length_mapIdx

end Fill

namespace Service

open Ledger

variable {a : Act} {s t : Service} {n missing : Nat} {shown : Shown} {segments raw : List Segment}

/-- An answer in a batch is what a job has told that was asked for the segment. -/
theorem Filling.told (h : Filling n shown raw missing (s.ledger 0)) (hs : Sound (s.ledger 0)) {place : Nat}
    {o : Outcome} (ho : answerTo s.jobs n place = some o) :
    ∃ seg, raw[place]? = some seg ∧ ∃ j ∈ s.jobs, j.content = seg.content ∧ o ∈ j.told := by
  unfold answerTo at ho
  obtain ⟨j, hfind, hout⟩ := Option.bind_eq_some_iff.mp ho
  have hl : j.listener = .slot n place := by simpa using List.find?_some hfind
  have hj : j ∈ s.jobs := List.mem_of_find?_eq_some hfind
  obtain ⟨i, hi⟩ := List.getElem?_of_mem hj
  obtain ⟨seg, hseg, _, hcontent⟩ := h.code i j place hi hl
  have htold : j.told = j.outcome.toList := hs.told i j hi
  exact ⟨seg, hseg, j, hj, hcontent, by simp [htold, hout]⟩

theorem Filling.formatted (h : Filling n shown raw missing (s.ledger 0)) (hs : Sound (s.ledger 0)) :
    Formatted s.jobs raw (fill (answerTo s.jobs n) raw) where
  length := length_fill
  kinds := map_kind_fill ..
  langs := map_lang_fill ..
  text place seg hseg htext := by
    have hnone : answerTo s.jobs n place = none := by
      refine h.answerTo_eq_none ?_
      intro hp
      obtain ⟨seg', hseg', hcode⟩ := mem_codePlaces.mp hp
      cases hseg.symm.trans hseg'
      exact nomatch htext.symm.trans hcode
    exact getElem?_fill_of_none hseg hnone
  code place seg hseg _ := by
    cases ho : answerTo s.jobs n place with
    | none => exact ⟨seg, getElem?_fill_of_none hseg ho, .inl rfl⟩
    | some o =>
      obtain ⟨seg', hseg', j, hj, hcontent, htold⟩ := h.told hs ho
      cases hseg.symm.trans hseg'
      exact ⟨_, getElem?_fill_of_some hseg ho,
        .inr ⟨j, hj, hcontent, o, htold, Segment.content_withContent seg o.text⟩⟩

/-- What a job has told stays. -/
theorem Step.told (h : Step s a t) (hs : Sound (s.ledger 0)) {j : Job} (hj : j ∈ s.jobs) {o : Outcome}
    (ho : o ∈ j.told) : ∃ j' ∈ t.jobs, j'.content = j.content ∧ j'.listener = j.listener ∧ o ∈ j'.told := by
  obtain ⟨i, hi⟩ := List.getElem?_of_mem hj
  have htold : j.told = j.outcome.toList := hs.told i j hi
  have hout : j.outcome = some o := by simpa [htold] using ho
  obtain ⟨j₁, hj₁, hout₁, _⟩ := h.effects.outcome hi hout
  obtain ⟨j₂, hj₂, hlistener, hcontent⟩ := h.effects.listener hi
  cases hj₁.symm.trans hj₂
  have htold₁ : j₁.told = j₁.outcome.toList := (h.sound hs).told i j₁ hj₁
  exact ⟨j₁, List.mem_of_getElem? hj₁, hcontent, hlistener, by simp [htold₁, hout₁]⟩

theorem Step.formatted (h : Step s a t) (hs : Sound (s.ledger 0)) (hf : Formatted s.jobs raw segments) :
    Formatted t.jobs raw segments := by
  refine { hf with code := ?_ }
  intro place seg hseg hcode
  obtain ⟨seg', hseg', hraw | ⟨j, hj, hcontent, o, ho, htext⟩⟩ := hf.code place seg hseg hcode
  · exact ⟨seg', hseg', .inl hraw⟩
  · obtain ⟨j', hj', hsame, _, ho'⟩ := h.told hs hj ho
    exact ⟨seg', hseg', .inr ⟨j', hj', hsame.trans hcontent, o, ho', htext⟩⟩

/-! ## Who opens batches -/

/-- One batch is new, for these segments of this diagnostic. -/
structure Opened (s t : Service) (shown : Shown) (segments : List Segment) : Prop where
  length : t.batches.length = s.batches.length + 1
  filling : ∃ missing, Filling s.batches.length shown segments missing (t.ledger 0)

theorem startBatch_opened
    (hold : ∀ (i : Nat) (j : Job) (place : Nat), s.jobs[i]? = some j → j.listener ≠ .slot s.batches.length place)
    (segments : List Segment) (shown : Shown) : Opened s (s.startBatch segments shown).2 shown segments := by
  obtain ⟨_, missing, _, _, hfill, ⟨b, hb⟩, _⟩ := startBatch_spec hold segments shown
  have hlen := congrArg (fun c => c.batches.length) hb
  exact ⟨by simpa [ledger, Display.openBatch] using hlen, missing, hfill⟩

theorem length_batches_present (s : Service) (shown : Shown) :
    (s.present shown).batches.length = s.batches.length := by
  have h := congrArg (fun c => c.batches.length) (ledger_present s shown 0)
  simpa [ledger, Display.display, Display.present, Display.render] using h

theorem display_opened
    (hold : ∀ (i : Nat) (j : Job) (place : Nat), s.jobs[i]? = some j → j.listener ≠ .slot s.batches.length place)
    (shown : Shown) (format : Option Bool) :
    (s.display shown format).1.batches.length = s.batches.length ∨
      Opened s (s.display shown format).1 shown (Message.segments shown.diagnostic.message) := by
  by_cases hne : shown.diagnostic.message = []
  · rw [display_of_empty hne]
    exact .inl rfl
  have hlen := length_batches_present s shown
  have hjobs : (s.present shown).jobs = s.jobs := congrArg Ledger.jobs (ledger_present s shown 0)
  rcases display_cases hne s format with h | ⟨u, p, rfl, h⟩
  · rw [h]
    exact .inl hlen
  · obtain ⟨hlength, missing, hfill⟩ := startBatch_opened (s := s.present shown) (by rwa [hjobs, hlen])
      (Message.segments shown.diagnostic.message) shown
    rw [hlen] at hlength hfill
    rw [h]
    exact .inr ⟨hlength, missing, ⟨hfill.once, hfill.code, hfill.batch⟩⟩

/-- A blocking run changes neither jobs nor batches nor anything that waits. -/
theorem formatBlocking_aside (s : Service) (content : Text) : ∃ cache locator runs warnings,
    (s.formatBlocking content).2 = { s with cache, locator, runs, warnings } := by
  have hconclude (u : Service) (r : ProcessResult) : ∃ cache warnings,
      (u.conclude content r).2 = { u with cache, warnings } := by
    unfold conclude
    dsimp only
    split
    · exact ⟨_, u.warnings, rfl⟩
    · exact ⟨u.cache, _, rfl⟩
  have hrun (u : Service) (argv : List Text) : ∃ cache runs warnings,
      (u.runBlocking content argv).2 = { u with cache, runs, warnings } := by
    unfold runBlocking
    dsimp only
    split
    · exact ⟨u.cache, _, _, rfl⟩
    · split
      · exact ⟨u.cache, _, u.warnings, rfl⟩
      · obtain ⟨cache, warnings, h⟩ := hconclude (u.run ⟨argv, Wrapping.wrap content, some u.config.timeoutMs⟩).2
          (resultOf argv (u.run ⟨argv, Wrapping.wrap content, some u.config.timeoutMs⟩).1)
        exact ⟨cache, _, warnings, h⟩
  have hloc : ∃ locator, s.locate.2 = { s with locator } := ⟨_, rfl⟩
  unfold formatBlocking
  split
  · exact ⟨s.cache, s.locator, s.runs, s.warnings, rfl⟩
  obtain ⟨locator, hloc⟩ := hloc
  split <;> rename_i t hl <;> rw [hl] at hloc <;> dsimp only at hloc <;> subst hloc
  · exact ⟨s.cache, locator, s.runs, s.warnings, rfl⟩
  · rename_i c
    split
    · exact ⟨s.cache, locator, s.runs, s.warnings, rfl⟩
    · rename_i argv _
      obtain ⟨cache, runs, warnings, h⟩ := hrun { s with locator } argv
      exact ⟨cache, locator, runs, warnings, h⟩

/-- An act opens no batch but one for the diagnostic that it shows, or that the program asks to be formatted. -/
theorem Step.opened (h : Step s a t) (hs : Sound (s.ledger 0)) :
    t.batches.length = s.batches.length ∨ ∃ shown segments, Opened s t shown segments ∧
      (s.Showing shown a ∧ segments = Message.segments shown.diagnostic.message ∨
        a = .move (.startBatch segments shown)) := by
  have of_ledger (u v : Service) (h : (v.ledger 0).batches = (u.ledger 0).batches) :
      v.batches.length = u.batches.length := by
    simpa [ledger] using congrArg List.length h
  by_cases hshow : ∃ shown, s.Showing shown a
  · obtain ⟨shown, hshow⟩ := hshow
    obtain ⟨c, format, hledger, _⟩ := h.display hshow
    have hlen := of_ledger _ t (congrArg (·.batches) hledger)
    rcases display_opened (s := { s with clock := c }) hs.listener_ne shown format with h | ⟨h, missing, hfill⟩
    · exact .inl (hlen.trans h)
    · exact .inr ⟨shown, _, ⟨hlen.trans h, missing, hledger ▸ hfill⟩, .inl ⟨hshow, rfl⟩⟩
  cases ha : a.job? with
  | some i =>
    have hd : (t.ledger a.hand).batches.length = (s.ledger 0).batches.length := by
      rcases h.effects.of_job ha with hstill | ⟨j, o, hlands⟩
      · rw [hstill.display]
      · rw [hlands.display, Display.length_batches_tell]
    exact .inl (by simpa [ledger] using hd)
  | none =>
    cases h with
    | @move m hm =>
      cases m with
      | request content l => exact .inl (request_frame s content l).2
      | formatBlocking content =>
        obtain ⟨_, _, _, _, h⟩ := formatBlocking_aside s content
        exact .inl (by rw [make, h])
      | complete i o => cases ha
      | display shown format => exact absurd ⟨shown, rfl⟩ hshow
      | displayAndAwait shown w => exact absurd ⟨shown, rfl⟩ hshow
      | toggle shown =>
        by_cases hopen : s.session.current.isSome = true
        · rw [make, toggle, if_pos hopen]
          exact .inl rfl
        · exact absurd ⟨shown, Option.not_isSome_iff_eq_none.mp hopen, rfl⟩ hshow
      | startBatch segments shown =>
        exact .inr ⟨shown, segments, startBatch_opened hs.listener_ne segments shown, .inr rfl⟩
      | awaitBatch i w => exact .inl (of_ledger s _ (congrArg (·.batches) (ledger_awaitBatch s 0 i w)))
      | rest time =>
        rw [make]
        split <;> exact .inl rfl
      | _ => exact .inl rfl
    | @event e c hp =>
      cases e with
      | wake w =>
        cases w with
        | program => exact .inl rfl
        | task i =>
          rcases ledger_wakeTask { s with clock := c } i 0 with ⟨shown, hw, _⟩ | ⟨_, hsame⟩
          · exact absurd ⟨shown, hw⟩ hshow
          · exact .inl (of_ledger { s with clock := c } _ (congrArg (·.batches) hsame))
      | rested => exact .inl rfl
      | _ => cases ha

/-! ## Sessions -/

/-- The act shows diagnostics that go by their handles, and formats the segments of their messages. -/
def Act.Names (diagnostics : Nat → Diagnostic) : Act → Prop
  | .move (.display d _) | .move (.toggle d) | .move (.displayAndAwait d _) | .move (.spawn d) =>
    d.diagnostic = diagnostics d.handle
  | .move (.startBatch segments d) =>
    d.diagnostic = diagnostics d.handle ∧ segments = Message.segments d.diagnostic.message
  | _ => True

/-- Every diagnostic that is shown, or is to be shown, goes by its handle, and every batch is for the segments of
its message. -/
structure Named (diagnostics : Nat → Diagnostic) (s : Service) : Prop where
  current : ∀ shown, s.session.current = some shown → shown.diagnostic = diagnostics shown.handle
  waits : ∀ (n : Nat) (shown : Shown), s.waits[n]? = some (.ready shown) →
    shown.diagnostic = diagnostics shown.handle
  batches : ∀ n, n < s.batches.length → ∃ shown missing, shown.diagnostic = diagnostics shown.handle ∧
    Filling n shown (Message.segments shown.diagnostic.message) missing (s.ledger 0)

/-- Nothing is shown, or a diagnostic with segments that its message may have come to. -/
structure Coherent (s : Service) : Prop where
  closed : s.session.current = none → s.session.segments = [] ∧ s.session.view = none ∧ s.session.errors = []
  shown : ∀ shown, s.session.current = some shown → (∃ before, Displays s before shown s.session.segments) ∧
    Formatted s.jobs (Message.segments shown.diagnostic.message) s.session.segments

variable {diagnostics : Nat → Diagnostic}

/-- A task that is to show a diagnostic was started for it. -/
theorem Step.ready (h : Step s a t) {i : Nat} (hw : t.waits[i]? = some (.ready shown)) :
    s.waits[i]? = some (.ready shown) ∨ a = .move (.spawn shown) := by
  have same (hwaits : t.waits = s.waits) : s.waits[i]? = some (.ready shown) ∨ a = .move (.spawn shown) :=
    .inl (hwaits ▸ hw)
  cases h with
  | @move m hm =>
    cases m with
    | request content l =>
      obtain ⟨_, _, _, h⟩ := request_aside s content l
      exact same (by rw [make, h])
    | formatBlocking content =>
      obtain ⟨_, _, _, _, h⟩ := formatBlocking_aside s content
      exact same (by rw [make, h])
    | complete n o => exact same (tells_complete s n o).setting.waits
    | display d format => exact same (waits_display s d format)
    | toggle d =>
      refine same ?_
      rw [make, toggle]
      split
      · rfl
      · exact waits_display s d none
    | startBatch segments d =>
      obtain ⟨_, _, _, _, h⟩ := startBatch_aside s segments d
      exact same (by rw [make, h])
    | displayAndAwait d w => exact same (waits_displayAndAwait s d w)
    | awaitBatch n w => exact same (waits_awaitBatch s n w)
    | spawn d =>
      have hw : (s.waits ++ [Wait.ready d])[i]? = some (.ready shown) := hw
      rw [List.getElem?_append] at hw
      split at hw
      · exact .inl hw
      · rw [List.getElem?_singleton] at hw
        split at hw
        · cases hw
          exact .inr rfl
        · cases hw
    | rest time =>
      refine same ?_
      rw [make]
      split <;> rfl
    | _ => exact same rfl
  | @event e c hp =>
    cases hj : e.job? with
    | some n => exact same (altered_handle hj { s with clock := c }).setting.waits
    | none =>
      cases e with
      | wake w =>
        cases w with
        | program => exact same rfl
        | task n =>
          -- the task that goes on is not ready any more, and the others stay
          have set (ws : List Wait) (w' : Wait) (hws : ws = s.waits) (hw' : w' ≠ .ready shown)
              (hset : (ws.set n w')[i]? = some (.ready shown)) : s.waits[i]? = some (.ready shown) := by
            rw [List.getElem?_set] at hset
            split at hset
            · split at hset
              · exact absurd (Option.some.inj hset) hw'
              · cases hset
            · exact hws ▸ hset
          left
          rw [handle, wakeTask] at hw
          split at hw
          · rename_i d hd
            have hwaits := waits_displayAndAwait { s with clock := c } d (.task n)
            split at hw <;> rename_i hu <;> rw [hu] at hwaits
            · exact set _ (.ended _) hwaits Wait.noConfusion hw
            · exact set _ .waiting hwaits Wait.noConfusion hw
          · exact set _ (.ended _) rfl Wait.noConfusion hw
          · exact hw
      | rested => exact same rfl
      | _ => cases hj

theorem Named.showing (h : Named diagnostics s) (ha : a.Names diagnostics) (hshow : s.Showing shown a) :
    shown.diagnostic = diagnostics shown.handle := by
  cases a with
  | move m =>
    cases m with
    | display d format =>
      cases hshow
      exact ha
    | displayAndAwait d w =>
      cases hshow
      exact ha
    | toggle d =>
      obtain ⟨_, rfl⟩ := hshow
      exact ha
    | _ => exact hshow.elim
  | event e =>
    cases e with
    | wake w =>
      cases w with
      | task n => exact h.waits n shown hshow
      | program => exact hshow.elim
    | _ => exact hshow.elim

/-- What is on display after an act: nothing, the diagnostic that the act shows, or the one that was on display. -/
theorem Step.current_cases (h : Step s a t) (hs : Sound (s.ledger 0)) :
    t.session = {} ∨ (∃ shown, s.Showing shown a ∧ Presented s t shown) ∨ Quiet s t := by
  by_cases hturns : s.Turns a
  · rcases hturns with hclosing | ⟨shown, hshow, hne⟩
    · exact .inl (h.closed hclosing)
    · exact .inr (.inl ⟨shown, hshow, h.presented hs hshow hne⟩)
  · exact .inr (.inr ⟨a, h, hturns⟩)

theorem Step.named (h : Step s a t) (hs : Sound (s.ledger 0)) (ha : a.Names diagnostics) (hn : Named diagnostics s) :
    Named diagnostics t where
  current shown hcur := by
    rcases h.current_cases hs with hclosed | ⟨d, hshow, hp⟩ | hq
    · rw [hclosed] at hcur
      cases hcur
    · obtain ⟨hd, _⟩ := hp.displays h.effects.config
      cases hcur.symm.trans hd.current
      exact hn.showing ha hshow
    · exact hn.current shown ((hq.current hs).symm.trans hcur)
  waits i shown hw := by
    rcases h.ready hw with hw | rfl
    · exact hn.waits i shown hw
    · exact ha
  batches n hlt := by
    rcases Nat.lt_or_ge n s.batches.length with hold | hnew
    · obtain ⟨shown, missing, hname, hfill⟩ := hn.batches n hold
      exact ⟨shown, missing, hname, h.filling hfill⟩
    · rcases h.opened hs with hlen | ⟨shown, segments, ⟨hlen, missing, hfill⟩, hfor⟩
      · omega
      · obtain rfl : n = s.batches.length := by omega
        rcases hfor with ⟨hshow, rfl⟩ | rfl
        · exact ⟨shown, missing, hn.showing ha hshow, hfill⟩
        · obtain ⟨hname, rfl⟩ := ha
          exact ⟨shown, missing, hname, hfill⟩

/-- An act that shows and closes nothing leaves the display as it is, or a job lands for the diagnostic on it. -/
theorem Quiet.same_or_lands (hq : Quiet s t) (hs : Sound (s.ledger 0)) :
    SameDisplay s t ∨ ∃ i place b o, LandsIn s t i place b o ∧ s.isCurrent b.shown = true := by
  by_cases hex : ∃ i place b o, LandsIn s t i place b o ∧ s.isCurrent b.shown = true
  · exact .inr hex
  · refine .inl (hq.same hs ?_)
    intro i place b o hin
    rw [← Bool.not_eq_true]
    exact fun hcurrent => hex ⟨i, place, b, o, hin, hcurrent⟩

/-- A job that lands for the diagnostic on display leaves its segments as far as they are formatted. -/
theorem LandsIn.refreshed {i place : Nat} {b : Batch} {o : Outcome} (hin : LandsIn s t i place b o) (hq : Quiet s t)
    (hs : Sound (s.ledger 0)) (hn : Named diagnostics s) {shown : Shown} (hcur : s.session.current = some shown)
    (hcurrent : s.isCurrent b.shown = true) : Refreshed s t shown t.session.segments o ∧
      Formatted t.jobs (Message.segments shown.diagnostic.message) t.session.segments := by
  obtain ⟨n, j, j', hj, hl, hnone, hb, hj', ho⟩ := id hin
  obtain ⟨a, hstep, _⟩ := id hq
  obtain ⟨d, missing, hname, hfill⟩ := hn.batches n (List.getElem?_eq_some_iff.mp hb).1
  have hfill' := hstep.filling hfill
  obtain ⟨b', hb', _, _, hrefresh, _⟩ := (hstep.lands hj hnone hj' ho).slot hl hb
  have hshown : b.shown = d := congrArg Batch.shown (hfill.bare_eq hb)
  have hslots : b'.slots = fill (answerTo t.jobs n) (Message.segments d.diagnostic.message) :=
    congrArg Batch.slots (hfill'.bare_eq hb')
  have hr := hrefresh hcurrent
  rw [isCurrent_eq hcur, decide_eq_true_eq] at hcurrent
  -- the batch is for a diagnostic of the same handle, and so for the same diagnostic
  obtain rfl : d = shown := by
    have hdiagnostic : d.diagnostic = shown.diagnostic := by
      rw [hname, hn.current shown hcur, ← hshown, ← hcurrent]
    change (⟨d.handle, d.diagnostic⟩ : Shown) = ⟨shown.handle, shown.diagnostic⟩
    rw [← hshown, ← hcurrent, hshown, hdiagnostic]
  rw [hshown] at hr
  rw [hr.segments_eq]
  exact ⟨hr, hslots ▸ hfill'.formatted (hstep.sound hs)⟩

theorem Step.coherent (h : Step s a t) (hs : Sound (s.ledger 0)) (hn : Named diagnostics s) (hc : Coherent s) :
    Coherent t := by
  rcases h.current_cases hs with hclosed | ⟨d, _, hp⟩ | hq
  · refine ⟨fun _ => by simp [hclosed], fun shown hcur => ?_⟩
    rw [hclosed] at hcur
    cases hcur
  · obtain ⟨hd, _⟩ := hp.displays h.effects.config
    refine ⟨fun hnone => ?_, fun shown hcur => ?_⟩
    · cases hnone.symm.trans hd.current
    · cases hcur.symm.trans hd.current
      rw [hd.segments_eq]
      exact ⟨⟨_, hd⟩, formatted_refl ..⟩
  · rcases hq.same_or_lands hs with hsame | ⟨i, place, b, o, hin, hcurrent⟩
    · refine ⟨fun hnone => ?_, fun shown hcur => ?_⟩
      · rw [hsame.segments, hsame.view, hsame.errors]
        exact hc.closed (hsame.current.symm.trans hnone)
      · obtain ⟨⟨before, hd⟩, hf⟩ := hc.shown shown (hsame.current.symm.trans hcur)
        rw [hsame.segments]
        exact ⟨⟨before, hd.of_same hsame hq.config⟩, h.formatted hs hf⟩
    · refine ⟨fun hnone => ?_, fun shown hcur => ?_⟩
      · rw [hq.current hs] at hnone
        rw [isCurrent, hnone] at hcurrent
        cases hcurrent
      · rw [hq.current hs] at hcur
        obtain ⟨⟨before, hd⟩, _⟩ := hc.shown shown hcur
        obtain ⟨hr, hf⟩ := hin.refreshed hq hs hn hcur hcurrent
        exact ⟨⟨before, hd.refreshed hr hq.config⟩, hf⟩

theorem IsFresh.named (h : s.IsFresh) : Named diagnostics s := by
  constructor <;> simp [h.session, h.waits, h.batches]

theorem IsFresh.coherent (h : s.IsFresh) : Coherent s := by
  constructor <;> simp [h.session]

theorem Course.coherent {as : List Act} (h : Course s as t) (has : ∀ a ∈ as, a.Names diagnostics)
    (hs : Sound (s.ledger 0)) (hn : Named diagnostics s) (hc : Coherent s) :
    Named diagnostics t ∧ Coherent t := by
  induction h with
  | nil => exact ⟨hn, hc⟩
  | snoc hcourse hstep ih =>
    obtain ⟨hn', hc'⟩ := ih fun a ha => has a (List.mem_append_left _ ha)
    have hs' := hcourse.sound hs
    exact ⟨hstep.named hs' (has _ (List.mem_append_right _ (List.mem_singleton_self _))) hn',
      hstep.coherent hs' hn' hc'⟩

end Service

end Legible
