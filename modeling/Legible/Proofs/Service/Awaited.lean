import Legible.Render.Report
import Legible.Proofs.Service.Pending
/-!
# Whose rendering is answered

Whoever shows a diagnostic and waits for its types is answered with the rendering on display when the batch that is
then pending has its result. If the diagnostic has a message, that batch is its own and so is the rendering. If it
has none, nothing is shown, and what is pending was left by a diagnostic before it: only if nothing is pending, there
is no answer. `Reported` says what this makes of a list of diagnostics.
-/

namespace Legible

namespace Service

open Ledger

variable {s t u : Service} {n : Nat} {shown : Shown} {diagnostics : Nat → Diagnostic} {f : Fault} {before : Option View}

theorem Stays.course (h : Stays t u) : ∃ as, Course t as u := by
  induction h with
  | refl => exact ⟨[], .nil⟩
  | tail _ hq ih =>
    obtain ⟨as, has⟩ := ih
    obtain ⟨a, hstep, _⟩ := hq
    exact ⟨_, has.snoc hstep⟩

/-! ## Showing a diagnostic that has a message, and waiting -/

section Message

variable (htakes : s.Takes) (hclock : s.onClock = true) (hne : shown.diagnostic.message ≠ [])

/-- Without a rendering there is nothing to wait for. -/
theorem displayAwaited_of_wide (hwide : shown.diagnostic.HasWideCode) (hne : shown.diagnostic.message ≠ [])
    (s : Service) : (s.displayAwaited shown).1 = .error (.code .tooWide) := by
  rw [displayAwaited_of_fault (display_of_wide hwide hne s _)]

variable (hwide : ¬ shown.diagnostic.HasWideCode)

include htakes hclock hne hwide

theorem displayAwaited_of_refuses {seg : Segment} (hseg : seg ∈ Message.segments shown.diagnostic.message)
    (hcode : seg.isCode = true) (hrefuse : s.Refuses seg.content f) : (s.displayAwaited shown).1 = .error f := by
  have herr : ((s.present shown).startBatch (Message.segments shown.diagnostic.message) shown).1 = .error f :=
    (startBatch_eq_error_iff ..).mpr ⟨seg, hseg, hcode, refuses_present.mpr hrefuse⟩
  have hstart : (s.present shown).startBatch (Message.segments shown.diagnostic.message) shown = (.error f, _) :=
    Prod.ext herr rfl
  obtain ⟨_, hview⟩ := View.exists_ofDiagnostic_iff.mpr hwide
  rw [displayAwaited_of_fault (display_of_fault htakes hclock hne hview hstart)]

/-- Showing a diagnostic of which nothing is refused asks for all its types. -/
theorem display_of_asked (hs : Sound (s.ledger 0))
    (hask : ∀ seg ∈ Message.segments shown.diagnostic.message, seg.isCode = true → ∀ f, ¬ s.Refuses seg.content f) :
    ∃ t view, s.display shown (some true) = (t, .ok view) ∧ t.IsPending s.batches.length shown ∧
      t.session.pending = some s.batches.length ∧ t.onClock = s.onClock ∧ t.onRender = s.onRender := by
  obtain ⟨_, _, hpresent, _⟩ := present_aside s shown
  obtain ⟨_, _, _, _, haside⟩ := startBatch_aside (s.present shown) (Message.segments shown.diagnostic.message) shown
  rcases hstart : (s.present shown).startBatch (Message.segments shown.diagnostic.message) shown with ⟨res, t⟩
  rw [hstart] at haside
  cases res with
  | error f =>
    obtain ⟨seg, hseg, hcode, hrefuse⟩ := (startBatch_eq_error_iff ..).mp (congrArg Prod.fst hstart)
    exact absurd (refuses_present.mp hrefuse) (hask seg hseg hcode f)
  | ok n =>
    obtain ⟨hpend, rfl⟩ := isPending_startBatch hs.listener_ne hne hwide hstart
    obtain ⟨_, hview⟩ := View.exists_ofDiagnostic_iff.mpr hwide
    refine ⟨_, _, display_of_started htakes hclock hne hview hstart, hpend, rfl, ?_, ?_⟩
    · rw [show t = _ from haside, hpresent]
    · rw [show t = _ from haside, hpresent]

end Message

/-- A diagnostic is on display with what was delivered for its types: each of them has a job of its own in the batch
and was answered, and is shown as it was or as a job for the very type has told. -/
structure Delivered (u : Service) (n : Nat) (shown : Shown) : Prop where
  current : u.session.current = some shown
  view : ∃ v, View.ofDiagnostic shown.diagnostic u.session.segments u.config.title = .ok v ∧ u.session.view = some v
  formatted : Formatted u.jobs (Message.segments shown.diagnostic.message) u.session.segments
  own : u.OwnJobs n (Message.segments shown.diagnostic.message)
  answered : ∀ place ∈ codePlaces (Message.segments shown.diagnostic.message), (answerTo u.jobs n place).isSome = true

theorem Settled.undone {segments : List Segment} (h : s.Settled n) (hfill : Filling n shown segments 0 (s.ledger 0)) :
    undone s.jobs n = 0 := by
  obtain ⟨b, hb, hsome⟩ := h
  have hres : b.result = if Legible.undone s.jobs n + 0 = 0 then some (fill (answerTo s.jobs n) segments) else none :=
    congrArg Batch.result (hfill.bare_eq hb)
  by_contra hne
  rw [if_neg (by omega)] at hres
  rw [hres] at hsome
  cases hsome

/-- Who waits for the batch that is pending finds its diagnostic on display, and all its types answered. -/
theorem IsPending.delivered (h : s.IsPending n shown) (hs : Orderly diagnostics s) (hnone : s.NoneReady) :
    Delivered (s.await n) n shown := by
  have hidle := hnone.await n
  obtain ⟨as, hcourse⟩ := hidle.stays.course
  obtain ⟨horderly, hsettled⟩ := hs.await h.filling
  have hfill := hcourse.filling h.filling
  have hcover := hcourse.covers h.covers
  have hcurrent := hidle.scene.current.trans h.current
  obtain ⟨⟨_, hdisplays⟩, hformatted⟩ := horderly.coherent.shown shown hcurrent
  exact ⟨hcurrent, hdisplays.view.rendered h.writable, hformatted, hfill.ownJobs horderly.sound hcover,
    (hfill.undone_eq_zero_iff hcover).mp (hsettled.undone hfill)⟩

/-- No job is left that was asked for by an earlier showing of the same diagnostic. -/
def Forgotten (s : Service) (shown : Shown) : Prop :=
  ∀ (i n place : Nat) (j : Job) (b : Batch), s.jobs[i]? = some j → j.listener = .slot n place →
    s.batches[n]? = some b → b.shown.handle = shown.handle → j.done = true

/-- Then only the jobs of the latest showing can land for the diagnostic. -/
theorem Forgotten.undisturbed (h : s.Forgotten shown) (hs : Tidy diagnostics s) {as : List Act} (hcourse : Course s as t)
    (hidle : Idling t u) : StaysUndisturbed shown s.jobs.length t.jobs.length t u := by
  induction hidle with
  | refl => exact .refl
  | @tail v w hidle hlast ih =>
    refine .tail ih ⟨hlast.quiet, ?_⟩
    rintro i place b o ⟨n, j, j', hj, hl, hnone, hb, _, _⟩ hhandle
    have hlt := (List.getElem?_eq_some_iff.mp hj).1
    refine ⟨?_, Idling.length_jobs hidle ▸ hlt⟩
    by_contra hold
    obtain ⟨bs, hcourse'⟩ := (Idling.stays hidle).course
    have hall := hcourse.append hcourse'
    obtain ⟨k, hk⟩ : ∃ k, s.jobs[i]? = some k := ⟨_, List.getElem?_eq_getElem (Nat.lt_of_not_le hold)⟩
    -- the job and the batch are older than the showing, so the job is done
    obtain ⟨k', hk', hlk, _⟩ := hall.listener hk
    cases hj.symm.trans hk'
    have hslot := hlk.symm.trans hl
    have hn : n < s.batches.length := by simpa [ledger] using hs.sound.slot i k n place hk hslot
    obtain ⟨d, missing, _, hfill⟩ := hs.named.batches n hn
    obtain ⟨b₀, hb₀, hbare⟩ := hfill.exists_batch
    have hshown₀ : b₀.shown = d := congrArg Batch.shown hbare
    have hshown : b.shown = d := congrArg Batch.shown ((hall.filling hfill).bare_eq hb)
    have hdone : k.done = true := h i n place k b₀ hk hslot hb₀ (by rw [hshown₀, ← hshown, hhandle])
    obtain ⟨o', ho'⟩ := Option.isSome_iff_exists.mp hdone
    obtain ⟨k₁, hk₁, ho₁, _⟩ := hall.outcome hk ho'
    cases hj.symm.trans hk₁
    cases hnone.symm.trans ho₁

/-- What the latest showing has asked for is what is on display. -/
theorem Forgotten.answered (h : s.Forgotten shown) (hs : Tidy diagnostics s) (hname : shown.diagnostic = diagnostics shown.handle)
    (hne : shown.diagnostic.message ≠ []) (hidle : Idling (s.display shown (some true)).1 u) :
    Answered u s.session.view s.batches.length shown (Message.segments shown.diagnostic.message) := by
  have hstep : Step s (.move (.display shown (some true))) (s.display shown (some true)).1 :=
    .move (m := .display shown (some true)) trivial
  have hp : Presented s (s.display shown (some true)).1 shown := display_presented hs.sound.listener_ne hne _
  have ht := hstep.tidy hname hs
  have hanswered := hp.answered hstep.effects.config hs.sound ht.sound (h.undisturbed hs (.single hstep) hidle)
  rw [← hidle.length_jobs, List.take_length] at hanswered
  exact ⟨hanswered.1, hanswered.2⟩

/-- What showing a diagnostic and waiting for it comes to if none of its types is refused. -/
structure Completes (s u : Service) (shown : Shown) : Prop where
  answer : s.displayAwaited shown = (.ok u.session.view, u)
  delivered : Delivered u s.batches.length shown
  settled : u.Settled s.batches.length
  pending : u.session.pending = some s.batches.length
  idling : Idling (s.display shown (some true)).1 u
  onClock : u.onClock = s.onClock
  onRender : u.onRender = s.onRender

theorem Orderly.completes (h : Orderly diagnostics s) (hnone : s.NoneReady) (htakes : s.Takes) (hclock : s.onClock = true)
    (hname : shown.diagnostic = diagnostics shown.handle) (hne : shown.diagnostic.message ≠ [])
    (hwide : ¬ shown.diagnostic.HasWideCode)
    (hask : ∀ seg ∈ Message.segments shown.diagnostic.message, seg.isCode = true → ∀ f, ¬ s.Refuses seg.content f) :
    ∃ u, Completes s u shown := by
  obtain ⟨t, view, hshown, hpend, hpending, hclock', hrender⟩ := display_of_asked htakes hclock hne hwide h.sound hask
  have hnone' := hnone.display shown (some true)
  have hshow : Orderly diagnostics (s.display shown (some true)).1 :=
    h.step (a := .move (.display shown (some true))) (.move trivial) hname trivial
  rw [hshown] at hnone' hshow
  have hidle := hnone'.await s.batches.length
  exact ⟨_, displayAwaited_of_pending hshown hpending, hpend.delivered hshow hnone', (hshow.await hpend.filling).2,
    hidle.scene.pending.trans hpending, by rw [hshown]; exact hidle, hidle.scene.onClock.trans hclock',
    hidle.scene.onRender.trans hrender⟩

theorem Completes.config (h : Completes s u shown) : u.config = s.config := by
  have hstep : Step s (.move (.display shown (some true))) (s.display shown (some true)).1 :=
    .move (m := .display shown (some true)) trivial
  exact h.idling.scene.config.trans hstep.effects.config

/-- The answer is the rendering of the diagnostic with what was delivered. -/
theorem Completes.result (h : Completes s u shown) :
    ∃ v, View.ofDiagnostic shown.diagnostic u.session.segments s.config.title = .ok v ∧
      (s.displayAwaited shown).1 = .ok (some v) := by
  obtain ⟨v, hv, hview⟩ := h.delivered.view
  rw [h.answer, hview, ← h.config]
  exact ⟨v, hv, rfl⟩

section Answer

variable (h : Orderly diagnostics s) (hclock : s.onClock = true) (hnone : s.NoneReady) (htakes : s.Takes)
  (hname : shown.diagnostic = diagnostics shown.handle) (hne : shown.diagnostic.message ≠ [])

include h hclock hnone htakes hname hne

theorem displayAwaited_eq_error_iff : (∃ f, (s.displayAwaited shown).1 = .error f) ↔ shown.diagnostic.HasWideCode ∨
    ∃ seg ∈ Message.segments shown.diagnostic.message, seg.isCode = true ∧ ∃ f, s.Refuses seg.content f := by
  by_cases hwide : shown.diagnostic.HasWideCode
  · exact iff_of_true ⟨_, displayAwaited_of_wide hwide hne s⟩ (.inl hwide)
  rw [or_iff_right hwide]
  constructor
  · rintro ⟨f, hf⟩
    by_contra hask
    obtain ⟨u, hu⟩ := h.completes hnone htakes hclock hname hne hwide
      fun seg hseg hcode f hrefuse => hask ⟨seg, hseg, hcode, f, hrefuse⟩
    cases hf.symm.trans (congrArg Prod.fst hu.answer)
  · rintro ⟨seg, hseg, hcode, f, hrefuse⟩
    exact ⟨f, displayAwaited_of_refuses htakes hclock hne hwide hseg hcode hrefuse⟩

theorem completes_displayAwaited (hok : ∀ f, (s.displayAwaited shown).1 ≠ .error f) :
    Completes s (s.displayAwaited shown).2 shown := by
  have herror := displayAwaited_eq_error_iff h hclock hnone htakes hname hne
  obtain ⟨u, hu⟩ := h.completes hnone htakes hclock hname hne (fun hwide => (herror.mpr (.inl hwide)).elim hok)
    fun seg hseg hcode f hrefuse => (herror.mpr (.inr ⟨seg, hseg, hcode, f, hrefuse⟩)).elim hok
  obtain rfl : (s.displayAwaited shown).2 = u := congrArg Prod.snd hu.answer
  exact hu

end Answer

/-- A diagnostic without a message is not shown. -/
theorem display_of_no_message (h : shown.diagnostic.message = []) (s : Service) (format : Option Bool) :
    s.display shown format = (s, .ok none) := by
  simp [display, h]

/-- Whoever shows it and waits is answered with the rendering of what is pending. -/
theorem Orderly.displayAwaited_of_no_message (h : Orderly diagnostics s) (hnone : s.NoneReady)
    (hempty : shown.diagnostic.message = []) (hpending : s.session.pending = some n) :
    ∃ other v, other.diagnostic.message ≠ [] ∧ s.session.current = some other ∧
      Delivered (s.displayAwaited shown).2 n other ∧
      View.ofDiagnostic other.diagnostic (s.displayAwaited shown).2.session.segments s.config.title = .ok v ∧
      (s.displayAwaited shown).1 = .ok (some v) := by
  have hanswer := displayAwaited_of_pending (display_of_no_message hempty s _) hpending
  obtain ⟨other, hpend⟩ := h.pending n hpending
  have hdelivered := hpend.delivered h hnone
  obtain ⟨v, hv, hview⟩ := hdelivered.view
  rw [(hnone.await n).scene.config] at hv
  rw [hanswer]
  exact ⟨other, v, hpend.message, hpend.current, hdelivered, hv, congrArg Except.ok hview⟩

/-! ## Reports on the clock -/

/-- A report of its diagnostic's message, in which each type is what a job of its batch has told that was asked for
this very type; the errors are those of these jobs. -/
structure IsOwn (jobs : List Job) (config : Config) (r : Report) : Prop where
  view : View.ofDiagnostic r.diagnostic r.segments config.title = .ok r.view
  answers : ∃ (n : Nat) (answer : Nat → Option Outcome),
    r.segments = fill answer (Message.segments r.diagnostic.message) ∧
    r.errors.Perm (answerErrors answer (codePlaces (Message.segments r.diagnostic.message))) ∧
    ∀ (place : Nat) (seg : Segment), (Message.segments r.diagnostic.message)[place]? = some seg →
      if seg.isCode then ∃ j ∈ jobs, j.listener = .slot n place ∧ j.content = seg.content ∧ ∃ o ∈ j.told, answer place = some o
      else answer place = none

theorem IsOwn.mono {config : Config} {r : Report} (h : IsOwn s.jobs config r) (hs : Sound (s.ledger 0)) (hst : Leads s t) :
    IsOwn t.jobs config r := by
  obtain ⟨as, hcourse⟩ := hst
  induction hcourse with
  | nil => exact h
  | snoc hcourse hstep ih =>
    obtain ⟨hview, n, answer, hsegments, herrors, hall⟩ := ih
    refine ⟨hview, n, answer, hsegments, herrors, fun place seg hseg => ?_⟩
    have hplace := hall place seg hseg
    split at hplace
    · rename_i hcode
      rw [if_pos hcode]
      obtain ⟨j, hj, hl, hcontent, o, ho, ha⟩ := hplace
      obtain ⟨j', hj', hcontent', hl', ho'⟩ := hstep.told (hcourse.sound hs) hj ho
      exact ⟨j', hj', hl'.trans hl, hcontent'.trans hcontent, o, ho', ha⟩
    · rename_i hcode
      rw [if_neg hcode]
      exact hplace

/-- The reports for one diagnostic after the other. `last` is the report of the last that had a message. -/
inductive Reported (jobs : List Job) (config : Config) : Option Report → List Diagnostic → List Report → Prop
  | nil {last : Option Report} : Reported jobs config last [] []
  | own {last : Option Report} {r : Report} {d : Diagnostic} {ds : List Diagnostic} {rs : List Report} :
      d.message ≠ [] → r.diagnostic = d → IsOwn jobs config r → Reported jobs config (some r) ds rs →
      Reported jobs config last (d :: ds) (r :: rs)
  /-- Nothing was shown before. -/
  | plain {r : Report} {d : Diagnostic} {ds : List Diagnostic} {rs : List Report} :
      d.message = [] → reportPlain config d = .ok r → Reported jobs config none ds rs →
      Reported jobs config none (d :: ds) (r :: rs)
  /-- What was shown last is taken for the diagnostic. -/
  | stale {r : Report} {d : Diagnostic} {ds : List Diagnostic} {rs : List Report} :
      d.message = [] → Reported jobs config (some r) ds rs →
      Reported jobs config (some r) (d :: ds) ({ r with diagnostic := d } :: rs)

/-- What holds between two reports: the program waits for nothing, and no job is left. -/
structure Between (diagnostics : Nat → Diagnostic) (s : Service) : Prop extends Orderly diagnostics s where
  noneReady : s.NoneReady
  onClock : s.onClock = true
  onRender : s.onRender = none
  done : ∀ j ∈ s.jobs, j.done = true

/-- The last report of a diagnostic with a message is what is on display. -/
def Last (s : Service) : Option Report → Prop
  | none => s.session.pending = none
  | some r => s.session.pending.isSome = true ∧ s.session.view = some r.view ∧ s.session.segments = r.segments ∧
      s.session.errors = r.errors

theorem Between.takes (h : Between diagnostics s) : s.Takes := by
  intro fails hfails
  rw [h.onRender] at hfails
  cases hfails

theorem Between.forgotten (h : Between diagnostics s) (shown : Shown) : s.Forgotten shown :=
  fun _ _ _ _ _ hj _ _ _ => h.done _ (List.mem_of_getElem? hj)

theorem Completes.between {u : Service} (h : Completes s u shown) (hs : Between diagnostics s)
    (hname : shown.diagnostic = diagnostics shown.handle) (hne : shown.diagnostic.message ≠ []) : Between diagnostics u := by
  have horderly : Orderly diagnostics u := by
    have h' := hs.toOrderly.displayAwaited hname
    rwa [h.answer] at h'
  refine ⟨horderly, h.idling.noneReady (hs.noneReady.display shown _), h.onClock.trans hs.onClock,
    h.onRender.trans hs.onRender, ?_⟩
  intro j hj
  obtain ⟨i, hi⟩ := List.getElem?_of_mem hj
  have hstep : Step s (.move (.display shown (some true))) (s.display shown (some true)).1 :=
    .move (m := .display shown (some true)) trivial
  obtain ⟨as, hcourse⟩ := h.idling.stays.course
  have hall := (Course.single hstep).append hcourse
  rcases Nat.lt_or_ge i s.jobs.length with hold | hnew
  · -- an outcome is final
    obtain ⟨k, hk⟩ : ∃ k, s.jobs[i]? = some k := ⟨_, List.getElem?_eq_getElem hold⟩
    obtain ⟨o, ho⟩ := Option.isSome_iff_exists.mp (hs.done k (List.mem_of_getElem? hk))
    obtain ⟨k', hk', ho', _⟩ := hall.outcome hk ho
    cases hi.symm.trans hk'
    exact Option.isSome_iff_exists.mpr ⟨o, ho'⟩
  · -- the batch of the showing has its result
    have hp : Presented s (s.display shown (some true)).1 shown := display_presented hs.sound.listener_ne hne _
    have hlt := (List.getElem?_eq_some_iff.mp hi).1
    rw [h.idling.length_jobs] at hlt
    obtain ⟨place, hl⟩ := hp.showingJobs.listener h.idling.stays hnew hlt hi
    obtain ⟨other, hpend⟩ := horderly.pending _ h.pending
    have hzero := h.settled.undone hpend.filling
    exact undone_eq_zero_iff.mp hzero j hj (by simp [Job.fills, hl])

/-- A diagnostic with a message gets a report of its own, unless it cannot be written or a type is refused. -/
theorem Between.report_of_message (h : Between diagnostics s) (hname : shown.diagnostic = diagnostics shown.handle)
    (hne : shown.diagnostic.message ≠ []) (hwide : ¬ shown.diagnostic.HasWideCode)
    (hask : ∀ seg ∈ Message.segments shown.diagnostic.message, seg.isCode = true → ∀ f, ¬ s.Refuses seg.content f) :
    ∃ r u, s.reportOnClock shown = (.ok r, u) ∧ r.diagnostic = shown.diagnostic ∧ Between diagnostics u ∧
      u.config = s.config ∧ IsOwn u.jobs s.config r ∧ u.Last (some r) := by
  obtain ⟨u, hu⟩ := h.toOrderly.completes h.noneReady h.takes h.onClock hname hne hwide hask
  have hbetween := hu.between h hname hne
  obtain ⟨v, hv, hview⟩ := hu.delivered.view
  have hanswered := (h.forgotten shown).answered h.toTidy hname hne hu.idling
  have hconfig := hu.config
  refine ⟨⟨shown.diagnostic, v, u.session.segments, u.session.errors⟩, u, ?_, rfl, hbetween, hconfig, ⟨?_, ?_⟩, ?_⟩
  · rw [reportOnClock, hu.answer, hview]
  · rw [← hconfig]
    exact hv
  · refine ⟨s.batches.length, answerTo u.jobs s.batches.length, hanswered.displays.segments_eq, hanswered.errors, ?_⟩
    intro place seg hseg
    split
    · rename_i hcode
      obtain ⟨i, j, hj, hl, hcontent, htold, _⟩ := hu.delivered.own.code place seg hseg hcode
      obtain ⟨o, ho⟩ := Option.isSome_iff_exists.mp
        (hu.delivered.answered place (mem_codePlaces.mpr ⟨seg, hseg, hcode⟩))
      exact ⟨j, List.mem_of_getElem? hj, hl, hcontent, o, by simp [htold, ho], ho⟩
    · rename_i htext
      exact hu.delivered.own.text place seg hseg (by simpa using htext)
  · exact ⟨by rw [hu.pending]; rfl, hview, rfl, rfl⟩

/-- The first diagnostic without a message gets a plain report. -/
theorem reportOnClock_of_none (hempty : shown.diagnostic.message = []) (hlast : s.Last none) :
    s.reportOnClock shown = (reportPlain s.config shown.diagnostic, s) := by
  simp only [reportOnClock, displayAwaited_of_none (display_of_no_message hempty s _) hlast]

/-- A later diagnostic without a message gets the last report. -/
theorem Between.report_of_last (h : Between diagnostics s) (hempty : shown.diagnostic.message = []) {r : Report}
    (hlast : s.Last (some r)) : s.reportOnClock shown = (.ok { r with diagnostic := shown.diagnostic }, s) := by
  obtain ⟨hpending, hview, hsegments, herrors⟩ := hlast
  obtain ⟨n, hn⟩ := Option.isSome_iff_exists.mp hpending
  obtain ⟨other, hpend⟩ := h.pending n hn
  -- the batch has its result, so that there is nothing to wait for
  have hawait : s.await n = s := by
    obtain ⟨b, hb, hbare⟩ := hpend.filling.exists_batch
    have hzero : undone s.jobs n = 0 := undone_eq_zero_iff.mpr fun j hj _ => h.done j hj
    have hres : b.result = if undone s.jobs n + 0 = 0 then
        some (fill (answerTo s.jobs n) (Message.segments other.diagnostic.message)) else none :=
      congrArg Batch.result hbare
    rw [hzero] at hres
    have hself : s.awaitBatch n .program = (false, s) := by simp [awaitBatch, hb, hres]
    rw [await, hself]
  have hanswer := displayAwaited_of_pending (display_of_no_message hempty s _) hn
  rw [hawait, hview] at hanswer
  simp only [reportOnClock, hanswer, hsegments, herrors]

theorem snd_reportOnClock (s : Service) (shown : Shown) : (s.reportOnClock shown).2 = (s.displayAwaited shown).2 := by
  unfold reportOnClock
  split <;> rename_i h <;> rw [h]

theorem leads_reportEach (s : Service) (shows : List Shown) : Leads s (reportEach reportOnClock s shows).2 := by
  induction shows generalizing s with
  | nil => exact .refl s
  | cons shown r ih =>
    have hfirst := leads_displayAwaited s shown
    rw [← snd_reportOnClock] at hfirst
    rw [reportEach]
    generalize s.reportOnClock shown = p at hfirst
    obtain ⟨res, t⟩ := p
    cases res with
    | error f => exact hfirst
    | ok report => exact hfirst.trans (ih t)

theorem fst_reportOnClock_of_error (h : (s.displayAwaited shown).1 = .error f) :
    (s.reportOnClock shown).1 = .error f := by
  unfold reportOnClock
  split <;> rename_i heq <;> rw [heq] at h <;> cases h
  rfl

section List

variable {α : Type} {render : Service → α → Except Fault Report × Service} {x : α} {rest : List α}

theorem fst_reportEach_of_error (h : (render s x).1 = .error f) : (reportEach render s (x :: rest)).1 = .error f := by
  unfold reportEach
  split <;> rename_i heq <;> rw [heq] at h <;> cases h
  rfl

theorem reportEach_of_ok {r : Report} (h : render s x = (.ok r, u)) : reportEach render s (x :: rest)
    = ((reportEach render u rest).1.map (r :: ·), (reportEach render u rest).2) := by
  rw [reportEach, h]

end List

/-- No report can be made of the diagnostic: its code has too many digits, or it has a type and no run can be started. -/
def Unreportable (config : Config) (d : Diagnostic) : Prop :=
  d.HasWideCode ∨ ∃ seg ∈ Message.segments d.message, seg.isCode = true ∧ ∃ c, Unusable config c

/-- Every diagnostic gets its report, unless there is one of which none can be made. -/
theorem Between.reportEach (h : Between diagnostics s) {last : Option Report} (hlast : s.Last last)
    {shows : List Shown} (hnames : ∀ shown ∈ shows, shown.diagnostic = diagnostics shown.handle) :
    (∃ f, (reportEach reportOnClock s shows).1 = .error f ∧ ∃ d ∈ shows.map (·.diagnostic), Unreportable s.config d) ∨
    ∃ reports, (reportEach reportOnClock s shows).1 = .ok reports ∧
      Reported (reportEach reportOnClock s shows).2.jobs s.config last (shows.map (·.diagnostic)) reports := by
  induction shows generalizing s last with
  | nil => exact .inr ⟨[], rfl, .nil⟩
  | cons shown rest ih =>
    have hname := hnames shown List.mem_cons_self
    have hrest : ∀ d ∈ rest, d.diagnostic = diagnostics d.handle := fun d hd => hnames d (List.mem_cons_of_mem _ hd)
    -- one report, and then the others
    have next {r : Report} {u : Service} {last' : Option Report} (hr : s.reportOnClock shown = (.ok r, u))
        (hu : Between diagnostics u) (hconfig : u.config = s.config) (hlast' : u.Last last')
        (hreported : ∀ (t : Service) rs, Leads u t →
          Reported t.jobs s.config last' (rest.map (·.diagnostic)) rs →
          Reported t.jobs s.config last ((shown :: rest).map (·.diagnostic)) (r :: rs)) :
        (∃ f, (Service.reportEach reportOnClock s (shown :: rest)).1 = .error f ∧
          ∃ d ∈ (shown :: rest).map (·.diagnostic), Unreportable s.config d) ∨
        ∃ reports, (Service.reportEach reportOnClock s (shown :: rest)).1 = .ok reports ∧
          Reported (Service.reportEach reportOnClock s (shown :: rest)).2.jobs s.config last
            ((shown :: rest).map (·.diagnostic)) reports := by
      have hleads := u.leads_reportEach rest
      rw [reportEach_of_ok hr]
      rcases ih hu hlast' hrest with ⟨f, herr, d, hd, hwhy⟩ | ⟨rs, hok, hrs⟩
      · exact .inl ⟨f, by rw [herr]; rfl, d, List.mem_cons_of_mem _ hd, hconfig ▸ hwhy⟩
      · exact .inr ⟨r :: rs, by rw [hok]; rfl, hreported _ _ hleads (hconfig ▸ hrs)⟩
    have stops {f : Fault} (herr : (s.reportOnClock shown).1 = .error f) (hwhy : Unreportable s.config shown.diagnostic) :
        ∃ f, (Service.reportEach reportOnClock s (shown :: rest)).1 = .error f ∧
          ∃ d ∈ (shown :: rest).map (·.diagnostic), Unreportable s.config d :=
      ⟨f, fst_reportEach_of_error herr, shown.diagnostic, List.mem_cons_self, hwhy⟩
    by_cases hne : shown.diagnostic.message = []
    · cases last with
      | none =>
        have hplain := reportOnClock_of_none hne hlast
        cases hr : reportPlain s.config shown.diagnostic with
        | error f =>
          rw [hr] at hplain
          obtain ⟨_, hwide⟩ := Report.of_eq_error_iff.mp hr
          exact .inl (stops (congrArg Prod.fst hplain) (.inl hwide))
        | ok r =>
          rw [hr] at hplain
          exact next hplain h rfl hlast fun t rs _ hrs => .plain hne hr hrs
      | some r => exact next (h.report_of_last hne hlast) h rfl hlast fun t rs _ hrs => .stale hne hrs
    by_cases hwide : shown.diagnostic.HasWideCode
    · exact .inl (stops (fst_reportOnClock_of_error (displayAwaited_of_wide hwide hne s)) (.inl hwide))
    by_cases hask : ∃ seg ∈ Message.segments shown.diagnostic.message, seg.isCode = true ∧ ∃ f, s.Refuses seg.content f
    · obtain ⟨seg, hseg, hcode, f, hrefuse⟩ := hask
      have herr := displayAwaited_of_refuses h.takes h.onClock hne hwide hseg hcode hrefuse
      obtain ⟨_, c, _, hargv⟩ := hrefuse
      have hunusable : Unusable s.config c := (argv_eq_error_iff c).mp ⟨f, hargv⟩
      exact .inl (stops (fst_reportOnClock_of_error herr) (.inr ⟨seg, hseg, hcode, c, hunusable⟩))
    · obtain ⟨r, u, hr, hd, hu, hconfig, hown, hlast'⟩ := h.report_of_message hname hne hwide
        fun seg hseg hcode f hrefuse => hask ⟨seg, hseg, hcode, f, hrefuse⟩
      refine next hr hu hconfig hlast' fun t rs hleads hrs => ?_
      exact .own hne hd (hown.mono hu.sound hleads) hrs

/-- A fresh service is between two reports. -/
theorem between_create (config : Config) (locator : Locator) (which : Which) (formatter : Formatter) :
    Between diagnostics (create config locator which formatter) where
  toOrderly := (isFresh_create ..).orderly
  noneReady _ _ := by simp [create]
  onClock := rfl
  onRender := rfl
  done _ hj := absurd hj List.not_mem_nil

theorem diagnostics_zipIdx (ds : List Diagnostic) :
    (ds.zipIdx.map fun (d, n) => (⟨n, d⟩ : Shown)).map (·.diagnostic) = ds := by
  rw [List.map_map]
  exact List.zipIdx_map_fst 0 ds

/-- The diagnostics of a list go by their places. -/
theorem names_zipIdx (ds : List Diagnostic) : ∀ shown ∈ ds.zipIdx.map fun (d, n) => (⟨n, d⟩ : Shown),
    shown.diagnostic = (ds[shown.handle]?).getD { message := [] } := by
  intro shown hshown
  obtain ⟨⟨d, n⟩, hmem, rfl⟩ := List.mem_map.mp hshown
  rw [List.mem_zipIdx_iff_getElem?] at hmem
  simp [hmem]

/-- The reports of a fresh service. -/
theorem reportAllOnClock_spec (config : Config) (locator : Locator) (which : Which) (formatter : Formatter)
    (ds : List Diagnostic) :
    let reported := (create config locator which formatter).reportAllOnClock ds
    (∃ f, reported.1 = .error f ∧ ∃ d ∈ ds, Unreportable config d) ∨
    ∃ reports, reported.1 = .ok reports ∧ Reported reported.2.jobs config none ds reports := by
  intro reported
  have h : Between (fun n => (ds[n]?).getD { message := [] }) (create config locator which formatter) :=
    between_create ..
  have hlast : (create config locator which formatter).Last none := rfl
  have hreports := h.reportEach hlast (names_zipIdx ds)
  have hds := diagnostics_zipIdx ds
  rwa [hds] at hreports

/-- Who shows a diagnostic and waits is answered with the rendering of what is pending: its own if it has a message and
nothing is refused, and else that of the diagnostic on display, if any is pending. In a list of reports, each diagnostic
with a message has its own, and one without has the last report before it of a diagnostic with a message. -/
theorem awaited_rendering_is_of_pending {s₀ : Service} (h₀ : s₀.IsFresh) (hhistory : History diagnostics s₀ s)
    (hclock : s.onClock = true) (hnone : s.NoneReady) (htakes : s.Takes)
    (hname : shown.diagnostic = diagnostics shown.handle) :
    let segments := Message.segments shown.diagnostic.message
    let result := (s.displayAwaited shown).1
    let u := (s.displayAwaited shown).2
    (shown.diagnostic.message ≠ [] →
      ((∃ f, result = .error f) ↔
        shown.diagnostic.HasWideCode ∨ ∃ seg ∈ segments, seg.isCode = true ∧ ∃ f, s.Refuses seg.content f) ∧
      ((∀ f, result ≠ .error f) → Delivered u s.batches.length shown ∧
        (∃ v, View.ofDiagnostic shown.diagnostic u.session.segments s.config.title = .ok v ∧ result = .ok (some v)) ∧
        (s.Forgotten shown → Answered u s.session.view s.batches.length shown segments))) ∧
    (shown.diagnostic.message = [] →
      (s.session.pending = none → result = .ok none ∧ u = s) ∧
      ∀ n, s.session.pending = some n → ∃ other v, other.diagnostic.message ≠ [] ∧ s.session.current = some other ∧
        Delivered u n other ∧ View.ofDiagnostic other.diagnostic u.session.segments s.config.title = .ok v ∧
        result = .ok (some v)) ∧
    ∀ (config : Config) (locator : Locator) (which : Which) (formatter : Formatter) (ds : List Diagnostic),
      let reported := (create config locator which formatter).reportAllOnClock ds
      (∀ f, reported.1 = .error f → ∃ d ∈ ds, Unreportable config d) ∧
      ∀ reports, reported.1 = .ok reports → Reported reported.2.jobs config none ds reports := by
  intro segments result u
  have h := hhistory.orderly h₀
  refine ⟨fun hne => ⟨displayAwaited_eq_error_iff h hclock hnone htakes hname hne, fun hok => ?_⟩, fun hempty => ⟨?_, ?_⟩, ?_⟩
  · have hcompletes := completes_displayAwaited h hclock hnone htakes hname hne hok
    exact ⟨hcompletes.delivered, hcompletes.result,
      fun hforgotten => hforgotten.answered h.toTidy hname hne hcompletes.idling⟩
  · intro hpending
    have hanswer := displayAwaited_of_none (display_of_no_message hempty s _) hpending
    exact ⟨congrArg Prod.fst hanswer, congrArg Prod.snd hanswer⟩
  · exact fun n hpending => h.displayAwaited_of_no_message hnone hempty hpending
  · intro config locator which formatter ds reported
    rcases reportAllOnClock_spec config locator which formatter ds with
      ⟨f, herr, hwhy⟩ | ⟨reports, hok, hreported⟩
    · refine ⟨fun _ _ => hwhy, fun rs hok => ?_⟩
      cases Eq.trans (Eq.symm herr) hok
    · refine ⟨fun f herr => ?_, fun rs hrs => ?_⟩
      · cases Eq.trans (Eq.symm hok) herr
      · cases Eq.trans (Eq.symm hok) hrs
        exact hreported

/-- A diagnostic is shown and its type formatted; the empty message after it is answered with the same rendering. -/
theorem empty_message_gets_last_rendering :
    let wrong : Diagnostic := { message := "Type '{ name: string; size: number }' is wrong." }
    let empty : Diagnostic := { message := [] }
    let diagnostics : Nat → Diagnostic := fun n => if n = 0 then wrong else empty
    let formatter : Formatter := fun _ _ => { stdout := "type __TSErrorsType__ = string;\n", delay := 9 }
    let s₀ := create .default { fixed := some "prettier" } (fun _ => none) formatter
    let s := (s₀.displayAwaited ⟨0, wrong⟩).2
    s₀.IsFresh ∧ History diagnostics s₀ s ∧ s.onClock = true ∧ s.NoneReady ∧ s.Takes ∧
      Answered s none 0 ⟨0, wrong⟩ (Message.segments wrong.message) ∧ answerTo s.jobs 0 1 = some ⟨"string", none⟩ ∧
      (∃ v, View.ofDiagnostic wrong (s.displayAwaited ⟨1, empty⟩).2.session.segments s.config.title = .ok v ∧
        (s.displayAwaited ⟨1, empty⟩).1 = .ok (some v)) ∧
      ∃ r, (s₀.reportAllOnClock [wrong, empty]).1 = .ok [r, { r with diagnostic := empty }] ∧
        IsOwn (s₀.reportAllOnClock [wrong, empty]).2.jobs .default r := by
  intro wrong empty diagnostics formatter s₀ s
  have hfresh : s₀.IsFresh := isFresh_create ..
  have hnone₀ : s₀.NoneReady := by
    intro i shown
    simp [s₀, create]
  have htakes₀ : s₀.Takes := by
    rintro fails ⟨⟩
  have hhistory : History diagnostics s₀ s := History.start.awaited rfl
  have hwaits : s.waits = [] := by decide +kernel
  have hrender : s.onRender.isNone = true := by decide +kernel
  have hnone : s.NoneReady := by
    intro i shown
    simp [hwaits]
  have htakes : s.Takes := by
    intro fails hfails
    rw [hfails] at hrender
    cases hrender
  have hclock : s.onClock = true := by decide +kernel
  have hne : wrong.message ≠ [] := by decide
  have hname₀ : Shown.diagnostic ⟨0, wrong⟩ = diagnostics (Shown.handle ⟨0, wrong⟩) := rfl
  have hname : Shown.diagnostic ⟨1, empty⟩ = diagnostics (Shown.handle ⟨1, empty⟩) := rfl
  obtain ⟨hmessage, _, hreports⟩ := awaited_rendering_is_of_pending hfresh .start rfl hnone₀ htakes₀ hname₀
  have hno : ∀ f, (s₀.displayAwaited ⟨0, wrong⟩).1 ≠ .error f := by
    intro f hf
    have hok : (s₀.displayAwaited ⟨0, wrong⟩).1.toOption.isSome = true := by decide +kernel
    rw [hf] at hok
    cases hok
  obtain ⟨_, hdelivered⟩ := hmessage hne
  obtain ⟨_, _, hforgotten⟩ := hdelivered hno
  have hnojobs : s₀.Forgotten ⟨0, wrong⟩ := by
    intro i n place j b hj
    simp [s₀, create] at hj
  obtain ⟨_, hempty, _⟩ := awaited_rendering_is_of_pending hfresh hhistory hclock hnone htakes hname
  obtain ⟨_, hpending⟩ := hempty rfl
  obtain ⟨other, v, _, hcurrent, _, hv, hresult⟩ := hpending 0 (by decide +kernel)
  have hon : s.session.current = some ⟨0, wrong⟩ := by decide +kernel
  cases hcurrent.symm.trans hon
  refine ⟨hfresh, hhistory, hclock, hnone, htakes, hforgotten hnojobs, by decide +kernel, ⟨v, hv, hresult⟩, ?_⟩
  obtain ⟨_, hreported⟩ := hreports .default { fixed := some "prettier" } (fun _ => none) formatter [wrong, empty]
  have hok : (s₀.reportAllOnClock [wrong, empty]).1.toOption.isSome = true := by decide +kernel
  cases hrs : (s₀.reportAllOnClock [wrong, empty]).1 with
  | error f =>
    rw [hrs] at hok
    cases hok
  | ok reports =>
    cases hreported reports hrs with
    | plain hempty => exact absurd hempty hne
    | own _ _ hown hrest =>
      cases hrest with
      | own hno => exact absurd rfl hno
      | stale _ hnil =>
        cases hnil
        exact ⟨_, rfl, hown⟩

end Service

end Legible
