import Legible.Proofs.Service.Coherence
import Legible.Proofs.Service.Waiting
/-!
# What is pending

The batch that is pending is the one that the diagnostic on display was shown with, and every type of its message
has a job in it. So whoever waits for it is woken with a result, and while nobody else shows or closes anything,
what is on display is still that diagnostic. `Orderly` collects what holds whenever the program waits for nothing.
-/

namespace Legible

namespace Service

open Ledger

variable {a : Act} {s t u : Service} {n : Nat} {shown : Shown} {segments : List Segment} {content : Text} {f : Fault}
  {view : View}

/-! ## Showing a diagnostic -/

theorem refuses_present : (s.present shown).Refuses content f ↔ s.Refuses content f := by
  obtain ⟨_, _, haside, _⟩ := present_aside s shown
  rw [haside]
  exact refuses_congr rfl rfl rfl

/-- The program takes the next rendering, if it takes any. -/
def Takes (s : Service) : Prop := ∀ fails, s.onRender = some fails → fails s.renderings.length = false

/-- Then showing a diagnostic as it is ends with its rendering, if there is one. -/
theorem render_of_takes (htakes : s.Takes)
    (hview : View.ofDiagnostic shown.diagnostic (Message.segments shown.diagnostic.message) s.config.title = .ok view) :
    render { s with session :=
        { current := some shown, segments := Message.segments shown.diagnostic.message, view := s.session.view } }
      shown.diagnostic (Message.segments shown.diagnostic.message) = (s.present shown, .ok view) := by
  refine Prod.ext rfl ?_
  simp only [render, hview, putView]
  split
  · rfl
  · rename_i fails hfails
    rw [htakes fails hfails]
    rfl

/-- A diagnostic whose code has too many digits is on display without a rendering of its own, and nothing is asked
for. -/
theorem display_of_wide (hwide : shown.diagnostic.HasWideCode) (hne : shown.diagnostic.message ≠ []) (s : Service)
    (format : Option Bool) : s.display shown format = (s.present shown, .error (.code .tooWide)) := by
  have hempty : shown.diagnostic.message.isEmpty = false := by simpa using hne
  simp only [display, present, render, hempty, Bool.false_eq_true, if_false, View.ofDiagnostic_of_wide hwide]

section Display

variable (htakes : s.Takes) (hclock : s.onClock = true) (hne : shown.diagnostic.message ≠ [])
  (hview : View.ofDiagnostic shown.diagnostic (Message.segments shown.diagnostic.message) s.config.title = .ok view)

include htakes hclock hne hview

/-- A batch is started next, and its fault is the one of the showing. -/
theorem display_of_fault
    (hstart : (s.present shown).startBatch (Message.segments shown.diagnostic.message) shown = (.error f, t)) :
    s.display shown (some true) = (t, .error f) := by
  obtain ⟨_, _, haside, _⟩ := present_aside s shown
  have hpresent : (s.present shown).onClock = true := by rw [haside, hclock]
  have hempty : shown.diagnostic.message.isEmpty = false := by simpa using hne
  simp only [display, hempty, Bool.false_eq_true, if_false, render_of_takes htakes hview, Option.getD_some, hpresent,
    Bool.and_self, if_true, hstart]

theorem display_of_started
    (hstart : (s.present shown).startBatch (Message.segments shown.diagnostic.message) shown = (.ok n, t)) :
    s.display shown (some true)
      = ({ t with session := { t.session with pending := some n } }, .ok (some view)) := by
  obtain ⟨_, _, haside, _⟩ := present_aside s shown
  have hpresent : (s.present shown).onClock = true := by rw [haside, hclock]
  have hempty : shown.diagnostic.message.isEmpty = false := by simpa using hne
  simp only [display, hempty, Bool.false_eq_true, if_false, render_of_takes htakes hview, Option.getD_some, hpresent,
    Bool.and_self, if_true, hstart]

end Display

/-- A diagnostic with a message is pending only if all of its types were asked for. -/
theorem pending_display (hne : shown.diagnostic.message ≠ []) (s : Service) (format : Option Bool) :
    (s.display shown format).1.session.pending = none ∨ ¬ shown.diagnostic.HasWideCode ∧ ∃ n t,
      (s.present shown).startBatch (Message.segments shown.diagnostic.message) shown = (.ok n, t) ∧
      (s.display shown format).1 = { t with session := { t.session with pending := some n } } := by
  obtain ⟨_, _, hpresent, _, hpending⟩ := present_aside s shown
  have hempty : shown.diagnostic.message.isEmpty = false := by simpa using hne
  have hnone : (s.present shown).session.pending = none := by rw [hpresent, hpending]
  by_cases hwide : shown.diagnostic.HasWideCode
  · rw [display_of_wide hwide hne]
    exact .inl hnone
  unfold display
  simp only [hempty, Bool.false_eq_true, if_false]
  split
  · rename_i t f h
    rw [← show s.present shown = t from congrArg Prod.fst h]
    exact .inl hnone
  · rename_i t view h
    obtain rfl : s.present shown = t := congrArg Prod.fst h
    split
    · obtain ⟨_, _, _, _, hstart⟩ := startBatch_aside (s.present shown) (Message.segments shown.diagnostic.message) shown
      split <;> rename_i u hu <;> rw [hu] at hstart
      · left
        rw [show u = _ from hstart]
        exact hnone
      · exact .inr ⟨hwide, _, u, hu, rfl⟩
    · exact .inl hnone

/-! ## The batch that is pending -/

/-- A batch is for the diagnostic on display, which can be written, and each type of its message has a job. -/
structure IsPending (s : Service) (n : Nat) (shown : Shown) : Prop where
  current : s.session.current = some shown
  message : shown.diagnostic.message ≠ []
  writable : ¬ shown.diagnostic.HasWideCode
  filling : Filling n shown (Message.segments shown.diagnostic.message) 0 (s.ledger 0)
  covers : Covers n (Message.segments shown.diagnostic.message) s.jobs

/-- The batch that is pending, if there is one, is for the diagnostic on display. -/
def PendingShown (s : Service) : Prop := ∀ n, s.session.pending = some n → ∃ shown, s.IsPending n shown

theorem isPending_startBatch
    (hold : ∀ (i : Nat) (j : Job) (place : Nat), s.jobs[i]? = some j → j.listener ≠ .slot s.batches.length place)
    (hne : shown.diagnostic.message ≠ []) (hwide : ¬ shown.diagnostic.HasWideCode)
    (hstart : (s.present shown).startBatch (Message.segments shown.diagnostic.message) shown = (.ok n, t)) :
    IsPending { t with session := { t.session with pending := some n } } n shown ∧ n = s.batches.length := by
  obtain ⟨_, _, hpresent, hcurrent, _⟩ := present_aside s shown
  have hjobs : (s.present shown).jobs = s.jobs := by rw [hpresent]
  have hlen : (s.present shown).batches.length = s.batches.length := by rw [hpresent]
  obtain ⟨_, _, _, _, haside⟩ := startBatch_aside (s.present shown) (Message.segments shown.diagnostic.message) shown
  obtain ⟨js, missing, hasked, hjs, hfill, _, hok⟩ := startBatch_spec (s := s.present shown)
    (by rwa [hjobs, hlen]) (Message.segments shown.diagnostic.message) shown
  rw [hstart] at haside hjs hfill hok
  obtain ⟨hn, rfl, hcount⟩ := hok n rfl
  rw [← hn] at hasked hfill
  refine ⟨⟨?_, hne, hwide, ⟨hfill.once, hfill.code, hfill.batch⟩, ?_⟩, hn.trans hlen⟩
  · have ht : t.session = (s.present shown).session := by rw [show t = _ from haside]
    rw [ht, hpresent, hcurrent]
  · change Covers n _ t.jobs
    rw [show t.jobs = _ from hjs]
    exact hasked.covers hcount

theorem IsPending.step (h : s.IsPending n shown) (hstep : Step s a t) (hcur : t.session.current = s.session.current) :
    t.IsPending n shown :=
  ⟨hcur.trans h.current, h.message, h.writable, hstep.filling h.filling, (Course.single hstep).covers h.covers⟩

/-- An act that shows and closes nothing leaves pending what is pending. -/
theorem Step.pending (h : Step s a t) (hq : ¬ s.Turns a) : t.session.pending = s.session.pending := by
  by_cases hshow : ∃ shown, s.Showing shown a
  · obtain ⟨shown, hshow⟩ := hshow
    have hempty : shown.diagnostic.message = [] := by
      by_contra hne
      exact hq (.inr ⟨shown, hshow, hne⟩)
    obtain ⟨c, format, _, hsession⟩ := h.display hshow
    rw [hsession, display_of_empty hempty]
  have hclosing : ¬ s.Closing a := fun hc => hq (.inl hc)
  cases h with
  | @move m hm =>
    cases m with
    | request content l =>
      obtain ⟨_, _, _, h⟩ := request_aside s content l
      rw [make, h]
    | formatBlocking content =>
      obtain ⟨_, _, _, _, h⟩ := formatBlocking_aside s content
      rw [make, h]
    | complete i o => exact (tells_complete s i o).setting.pending
    | display d format => exact absurd ⟨d, rfl⟩ hshow
    | displayAndAwait d w => exact absurd ⟨d, rfl⟩ hshow
    | toggle d =>
      by_cases hopen : s.session.current.isSome = true
      · exact absurd hopen hclosing
      · exact absurd ⟨d, Option.not_isSome_iff_eq_none.mp hopen, rfl⟩ hshow
    | close => exact absurd trivial hclosing
    | startBatch segments d =>
      obtain ⟨_, _, _, _, h⟩ := startBatch_aside s segments d
      rw [make, h]
    | awaitBatch i w => exact congrArg Session.pending (session_awaitBatch s i w)
    | rest time =>
      rw [make]
      split <;> rfl
    | _ => rfl
  | @event e c hp =>
    cases he : e.job? with
    | some i => exact (altered_handle he { s with clock := c }).setting.pending
    | none =>
      cases e with
      | wake w =>
        cases w with
        | program => rfl
        | task i =>
          rw [handle, wakeTask]
          split
          · rename_i d hd
            exact absurd ⟨d, hd⟩ hshow
          · rfl
          · rfl
      | rested => rfl
      | _ => cases he

theorem Step.pendingShown (h : Step s a t) (hs : Sound (s.ledger 0)) (hp : s.PendingShown) : t.PendingShown := by
  intro n hn
  by_cases hturns : s.Turns a
  · rcases hturns with hclosing | ⟨shown, hshow, hne⟩
    · rw [h.closed hclosing] at hn
      cases hn
    · obtain ⟨c, format, hledger, hsession⟩ := h.display hshow
      rw [hsession] at hn
      rcases pending_display hne { s with clock := c } format with hnone | ⟨hwide, m, u, hstart, hdisplay⟩
      · cases hnone.symm.trans hn
      · rw [hdisplay] at hn hledger hsession
        cases hn
        obtain ⟨hpend, _⟩ := isPending_startBatch (s := { s with clock := c }) hs.listener_ne hne hwide hstart
        have hjobs : t.jobs = u.jobs := congrArg Ledger.jobs hledger
        exact ⟨shown, by rw [hsession]; exact hpend.current, hne, hwide, hledger ▸ hpend.filling,
          hjobs ▸ hpend.covers⟩
  · -- nothing is shown or closed: the same batch is pending, and for the same diagnostic
    obtain ⟨shown, hpend⟩ := hp n ((h.pending hturns).symm.trans hn)
    have hq : Quiet s t := ⟨a, h, hturns⟩
    exact ⟨shown, hpend.step h (hq.current hs)⟩

/-! ## While the program waits for nothing -/

/-- The program does not go to sleep, and asks for nothing that it then waits for. -/
def Act.IsPrompt : Act → Prop
  | .move (.request _ l) => l ≠ .program
  | .move (.displayAndAwait _ w) | .move (.awaitBatch _ w) => w ≠ .program
  | .move (.rest _) => False
  | _ => True

/-- A program that waits for nothing is not woken. -/
theorem Step.wakings (h : Step s a t) (ha : a.IsPrompt) (hw : s.wakings = 0) : t.wakings = 0 := by
  have keeps {v w : Service} (hv : v.wakings = 0) (hk : KeepsWaiting v w) : w.wakings = 0 := hk.wakings.trans hv
  cases h with
  | @move m hm =>
    cases m with
    | request content l => exact keeps hw (keepsWaiting_request s content ha)
    | formatBlocking content =>
      obtain ⟨_, _, _, _, h⟩ := formatBlocking_aside s content
      rw [make, h]
      exact keeps hw (.of_same rfl rfl rfl rfl)
    | complete i o => exact (s.weigh_complete .wakings i o).trans hw
    | display d format => exact keeps hw (keepsWaiting_display s d format)
    | displayAndAwait d w =>
      cases w with
      | program => exact absurd rfl ha
      | task i => exact keeps hw (keepsWaiting_displayAndAwait s d i)
    | toggle d =>
      rw [make, toggle]
      split
      · exact keeps hw (.of_same rfl rfl rfl rfl)
      · exact keeps hw (keepsWaiting_display s d none)
    | startBatch segments d => exact keeps hw (keepsWaiting_startBatch s segments d)
    | awaitBatch i w =>
      cases w with
      | program => exact absurd rfl ha
      | task k => exact keeps hw (keepsWaiting_awaitBatch s i k)
    | spawn d =>
      have hspawn : KeepsWaiting s { s with waits := s.waits ++ [Wait.ready d] } := .of_same rfl rfl rfl rfl
      exact keeps hw (hspawn.trans (.push rfl))
    | rest time => exact ha.elim
    | proceed => exact hw
    | _ => exact keeps hw (.of_same rfl rfl rfl rfl)
  | @event e c hp =>
    -- an event that wakes the program, or will, would have counted while it was pending
    have hcount : s.wakings = Service.wakings { s with clock := c } + Weights.wakings.event e :=
      s.weigh_of_pending .wakings hp
    have hc : Service.wakings { s with clock := c } = 0 := by omega
    cases he : e.job? with
    | some i => exact keeps hc (altered_handle he { s with clock := c }).keepsWaiting
    | none =>
      cases e with
      | wake w =>
        cases w with
        | program => exact hc
        | task i => exact keeps hc (keepsWaiting_wakeTask _ i)
      | rested =>
        have hone : Weights.wakings.event .rested = 1 := rfl
        omega
      | _ => cases he

variable {diagnostics : Nat → Diagnostic}

/-- What holds of a service that shows diagnostics, at any time. -/
structure Tidy (diagnostics : Nat → Diagnostic) (s : Service) : Prop where
  sound : Sound (s.ledger 0)
  named : Named diagnostics s
  coherent : Coherent s
  pending : s.PendingShown

theorem Step.tidy (h : Step s a t) (ha : a.Names diagnostics) (hs : Tidy diagnostics s) : Tidy diagnostics t :=
  ⟨h.sound hs.sound, h.named hs.sound ha hs.named, h.coherent hs.sound hs.named hs.coherent,
    h.pendingShown hs.sound hs.pending⟩

theorem Course.tidy {as : List Act} (h : Course s as t) (has : ∀ a ∈ as, a.Names diagnostics)
    (hs : Tidy diagnostics s) : Tidy diagnostics t := by
  induction h with
  | nil => exact hs
  | snoc _ hstep ih =>
    exact hstep.tidy (has _ (List.mem_append_right _ (List.mem_singleton_self _)))
      (ih fun a ha => has a (List.mem_append_left _ ha))

/-- What holds besides while the program waits for nothing. -/
structure Orderly (diagnostics : Nat → Diagnostic) (s : Service) : Prop extends Tidy diagnostics s where
  wakings : s.wakings = 0

theorem IsFresh.orderly (h : s.IsFresh) : Orderly diagnostics s where
  sound := h.sound
  named := h.named
  coherent := h.coherent
  pending n hn := by simp [h.session] at hn
  wakings := by simp [Service.wakings, weigh, h.pending, h.jobs, h.batches]

theorem Orderly.step (h : Orderly diagnostics s) (hstep : Step s a t) (hname : a.Names diagnostics)
    (hprompt : a.IsPrompt) : Orderly diagnostics t :=
  ⟨hstep.tidy hname h.toTidy, hstep.wakings hprompt h.wakings⟩

/-! ## While nobody shows anything -/

/-- Nothing is shown or closed or asked for. -/
structure Idles (s t : Service) : Prop where
  quiet : Quiet s t
  scene : SameScene s t
  waits : s.NoneReady → t.NoneReady
  jobs : t.jobs.length = s.jobs.length

/-- An event about no job only wakes someone. -/
theorem NoneReady.handle_aside (hnone : s.NoneReady) {e : Event} (he : e.job? = none) :
    ∃ (ws : List Waiter) (waits : List Wait) (awake : Bool), handle s e
      = { s with clock := { s.clock with queue := s.clock.queue ++ ws.map .wake }, waits, awake } := by
  have hnobody : s.clock.queue ++ ([] : List Waiter).map Event.wake = s.clock.queue := List.append_nil _
  cases e with
  | wake w =>
    cases w with
    | program => exact ⟨[], s.waits, true, by rw [hnobody]; rfl⟩
    | task i =>
      rw [handle, wakeTask]
      split
      · rename_i d hd
        exact absurd hd (hnone i d)
      · exact ⟨[], _, s.awake, by rw [hnobody]⟩
      · exact ⟨[], s.waits, s.awake, by rw [hnobody]⟩
  | rested => exact ⟨[.program], s.waits, s.awake, rfl⟩
  | _ => cases he

/-- While no task is yet to show its diagnostic, events do nothing else. -/
theorem NoneReady.idles (hnone : s.NoneReady) {e : Event} (h : Step s (.event e) t) : Idles s t := by
  have hframe : SameScene s t ∧ t.jobs.length = s.jobs.length := by
    have hstep := h
    cases h with
    | @event _ c hp =>
      have hclock : SameScene s { s with clock := c } := ⟨rfl, rfl, rfl, rfl, rfl, rfl, rfl, rfl⟩
      cases he : e.job? with
      | some i =>
        refine ⟨hclock.trans (altered_handle he { s with clock := c }).setting.toSameScene, ?_⟩
        rcases hstep.effects.of_job he with hstill | ⟨_, _, hlands⟩
        · exact hstill.length
        · exact hlands.length
      | none =>
        obtain ⟨_, _, _, h⟩ := NoneReady.handle_aside (s := { s with clock := c }) hnone he
        rw [h]
        exact ⟨⟨rfl, rfl, rfl, rfl, rfl, rfl, rfl, rfl⟩, rfl⟩
  exact ⟨hnone.quiet h, hframe.1, fun _ i shown hw => (h.ready hw).elim (hnone i shown) Act.noConfusion, hframe.2⟩

/-- Nothing is shown or closed or asked for in one act after the other. -/
abbrev Idling : Service → Service → Prop := Relation.ReflTransGen Idles

namespace Idling

theorem stays (h : Idling s t) : Stays s t := h.lift id fun _ _ hidles => hidles.quiet

theorem scene (h : Idling s t) : SameScene s t := by
  induction h with
  | refl => exact .refl s
  | tail _ hidles ih => exact ih.trans hidles.scene

theorem noneReady (h : Idling s t) (hs : s.NoneReady) : t.NoneReady := by
  induction h with
  | refl => exact hs
  | tail _ hidles ih => exact hidles.waits ih

theorem length_jobs (h : Idling s t) : t.jobs.length = s.jobs.length := by
  induction h with
  | refl => rfl
  | tail _ hidles ih => exact hidles.jobs.trans ih

end Idling

theorem idles_proceed (s : Service) : Idles s { s with awake := false } where
  quiet := ⟨_, .move (m := .proceed) trivial, fun h => h.elim id fun ⟨_, h, _⟩ => h⟩
  scene := ⟨rfl, rfl, rfl, rfl, rfl, rfl, rfl, rfl⟩
  waits := id
  jobs := rfl

theorem idles_awaitBatch (s : Service) (n : Nat) (w : Waiter) : Idles s (s.awaitBatch n w).2 where
  quiet := ⟨_, .move (m := .awaitBatch n w) trivial, fun h => h.elim id fun ⟨_, h, _⟩ => h⟩
  scene := by
    have hsession := session_awaitBatch s n w
    refine ⟨?_, ?_, ?_, ?_, ?_, ?_, congrArg Session.current hsession, congrArg Session.pending hsession⟩ <;>
    · unfold awaitBatch
      split
      · rfl
      · split <;> rfl
  waits hnone i shown := by
    rw [waits_awaitBatch]
    exact hnone i shown
  jobs := congrArg (fun c => c.jobs.length) (ledger_awaitBatch s 0 n w)

theorem NoneReady.runSteps (hnone : s.NoneReady) (fuel : Nat) : Idling s (runSteps fuel s) := by
  induction fuel generalizing s with
  | zero => exact .refl
  | succ fuel ih =>
    rw [Service.runSteps]
    split
    · exact .refl
    · split
      · exact .refl
      · rename_i t ht
        obtain ⟨e, hstep⟩ := step_of_step? ht
        have hidles := hnone.idles hstep
        exact .head hidles (ih (hidles.waits hnone))

theorem NoneReady.runUntilAwake (hnone : s.NoneReady) : Idling s s.runUntilAwake := by
  have hfirst := idles_proceed s
  exact .head hfirst (.tail (NoneReady.runSteps (hfirst.waits hnone) s.bound) (idles_proceed _))

/-! ## Waiting for a batch -/

/-- The program waits for a batch, if it has no result yet. -/
def await (s : Service) (n : Nat) : Service :=
  match s.awaitBatch n .program with
  | (true, t) => t.runUntilAwake
  | (false, t) => t

theorem displayAwaited_of_fault (h : s.display shown (some true) = (t, .error f)) :
    s.displayAwaited shown = (.error f, t) := by
  simp only [displayAwaited, displayAndAwait, h]

theorem displayAwaited_of_none {view : Option View} (h : s.display shown (some true) = (t, .ok view))
    (hpending : t.session.pending = none) : s.displayAwaited shown = (.ok view, t) := by
  simp only [displayAwaited, displayAndAwait, h, hpending]

theorem displayAwaited_of_pending {view : Option View} (h : s.display shown (some true) = (t, .ok view))
    (hpending : t.session.pending = some n) :
    s.displayAwaited shown = (.ok (t.await n).session.view, t.await n) := by
  simp only [displayAwaited, displayAndAwait, h, hpending, await]
  generalize t.awaitBatch n .program = p
  obtain ⟨waits, u⟩ := p
  cases waits <;> rfl

/-- A task that shows a diagnostic is not ready because another is shown. -/
theorem NoneReady.display (h : s.NoneReady) (shown : Shown) (format : Option Bool) :
    (s.display shown format).1.NoneReady := by
  intro i d
  rw [waits_display]
  exact h i d

/-- While no task is yet to show its diagnostic, waiting shows and closes nothing. -/
theorem NoneReady.await (hnone : s.NoneReady) (n : Nat) : Idling s (s.await n) := by
  have hidles := s.idles_awaitBatch n .program
  unfold Service.await
  split <;> rename_i t ht <;> rw [ht] at hidles
  · exact .head hidles (hidles.waits hnone).runUntilAwake
  · exact .single hidles

theorem course_runUntilAwake (s : Service) :
    ∃ es : List Event, Course s ([.move .proceed] ++ es.map .event ++ [.move .proceed]) s.runUntilAwake := by
  obtain ⟨es, hes⟩ := course_runSteps s.bound { s with awake := false }
  have hfirst : Course s [.move .proceed] { s with awake := false } := .single (.move (m := .proceed) trivial)
  exact ⟨es, (hfirst.append hes).snoc (.move (m := .proceed) trivial)⟩

theorem Tidy.runUntilAwake (h : Tidy diagnostics s) : Tidy diagnostics s.runUntilAwake := by
  obtain ⟨es, hcourse⟩ := s.course_runUntilAwake
  refine hcourse.tidy ?_ h
  intro a ha
  simp only [List.mem_append, List.mem_singleton, List.mem_map] at ha
  rcases ha with (rfl | ⟨e, _, rfl⟩) | rfl <;> trivial

/-- The program does not wait in vain for a batch whose types were all asked for. -/
theorem Orderly.await (h : Orderly diagnostics s) (hfill : Filling n shown segments 0 (s.ledger 0)) :
    Orderly diagnostics (s.await n) ∧ (s.await n).Settled n := by
  obtain ⟨b, hb, _⟩ := hfill.exists_batch
  have hstep : Step s (.move (.awaitBatch n .program)) (s.awaitBatch n .program).2 :=
    .move (m := .awaitBatch n .program) trivial
  have htidy : Tidy diagnostics (s.awaitBatch n .program).2 := hstep.tidy trivial h.toTidy
  have hfill' := hstep.filling hfill
  have honce := s.weigh_awaitBatch_of_waits .wakings (n := n) (x := .program)
  have hwaits : (s.awaitBatch n .program).1 = true → (s.awaitBatch n .program).2.Waits n .program := by
    unfold awaitBatch
    rw [hb]
    dsimp only
    split
    · rintro ⟨⟩
    · rename_i hnone
      rintro -
      refine ⟨_, List.getElem?_set_self (List.getElem?_eq_some_iff.mp hb).1, .inl ⟨?_, ?_⟩⟩
      · simpa using hnone
      · exact List.mem_append_right _ (List.mem_singleton_self _)
  have hself := s.awaitBatch_eq_self (n := n) (x := .program)
  have hsettled : (s.awaitBatch n .program).1 = false → s.Settled n := by
    unfold awaitBatch
    rw [hb]
    dsimp only
    split
    · rename_i hsome
      exact fun _ => ⟨b, hb, hsome⟩
    · rintro ⟨⟩
  unfold Service.await
  generalize s.awaitBatch n .program = p at htidy hfill' honce hwaits hself hsettled
  obtain ⟨waits, t⟩ := p
  cases waits with
  | false =>
    obtain rfl : t = s := hself rfl
    exact ⟨h, hsettled rfl⟩
  | true =>
    -- before, nothing was to wake the program; now the batch is, and nothing else
    have hone : t.wakings = 1 := by
      rw [Service.wakings, honce rfl, show s.weigh .wakings = 0 from h.wakings]
      rfl
    have hawaits : Awaits { t with awake := false } n := ⟨hwaits rfl, hone⟩
    obtain ⟨_, hwakings, hdone⟩ := hawaits.runSteps htidy.sound hfill' rfl t.bound (t.work_le_bound)
    exact ⟨⟨htidy.runUntilAwake, hwakings⟩, hdone⟩

/-- Whoever shows a diagnostic and waits for it waits for nothing afterwards. -/
theorem Orderly.displayAwaited (h : Orderly diagnostics s) (hname : shown.diagnostic = diagnostics shown.handle) :
    Orderly diagnostics (s.displayAwaited shown).2 := by
  have hshow : Orderly diagnostics (s.display shown (some true)).1 :=
    h.step (a := .move (.display shown (some true))) (.move trivial) hname trivial
  rcases hp : s.display shown (some true) with ⟨t, res⟩
  rw [hp] at hshow
  cases res with
  | error f =>
    rw [displayAwaited_of_fault hp]
    exact hshow
  | ok view =>
    cases hpending : t.session.pending with
    | none =>
      rw [displayAwaited_of_none hp hpending]
      exact hshow
    | some n =>
      rw [displayAwaited_of_pending hp hpending]
      obtain ⟨other, hpend⟩ := hshow.pending n hpending
      exact (hshow.await hpend.filling).1

/-- Time passes, or events change their order. -/
theorem Orderly.passes (h : Orderly diagnostics s) {c : Clock} (hc : c.pending = s.clock.pending) :
    Orderly diagnostics { s with clock := c } := by
  have hledger : ledger { s with clock := c } 0 = s.ledger 0 := by simp only [ledger, hc]
  refine ⟨⟨hledger ▸ h.sound, ⟨h.named.current, h.named.waits, hledger ▸ h.named.batches⟩, ?_, ?_⟩, ?_⟩
  · refine ⟨h.coherent.closed, fun shown hcur => ?_⟩
    obtain ⟨⟨before, hd⟩, hf⟩ := h.coherent.shown shown hcur
    exact ⟨⟨before, hcur, rfl, hd.view⟩, hf⟩
  · intro n hn
    obtain ⟨shown, hpend⟩ := h.pending n hn
    exact ⟨shown, hpend.current, hpend.message, hpend.writable, hledger ▸ hpend.filling, hpend.covers⟩
  · have hsame : Service.wakings { s with clock := c } = s.wakings := by simp only [Service.wakings, weigh, hc]
    exact hsame.trans h.wakings

/-- What a service can come to while its program waits for nothing but diagnostics that it shows. -/
inductive History (diagnostics : Nat → Diagnostic) (s₀ : Service) : Service → Prop
  | start : History diagnostics s₀ s₀
  | act {s t : Service} {a : Act} : History diagnostics s₀ s → Step s a t → a.Names diagnostics → a.IsPrompt →
      History diagnostics s₀ t
  | passes {s : Service} {c : Clock} : History diagnostics s₀ s → c.pending = s.clock.pending →
      History diagnostics s₀ { s with clock := c }
  | awaited {s : Service} {shown : Shown} : History diagnostics s₀ s →
      shown.diagnostic = diagnostics shown.handle → History diagnostics s₀ (s.displayAwaited shown).2

theorem History.orderly {s₀ : Service} (h₀ : s₀.IsFresh) (h : History diagnostics s₀ s) : Orderly diagnostics s := by
  induction h with
  | start => exact h₀.orderly
  | act _ hstep hname hprompt ih => exact ih.step hstep hname hprompt
  | passes _ hc ih => exact ih.passes hc
  | awaited _ hname ih => exact ih.displayAwaited hname

end Service

end Legible
