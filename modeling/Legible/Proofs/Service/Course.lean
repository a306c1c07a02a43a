import Legible.Service.Run
import Legible.Proofs.Service.Clock
/-!
# Courses of a service

A course is a list of acts: moves of the program, and events that happen by themselves. An event may
happen as soon as it is pending, whatever stands before it in the queue and whatever time it was set for,
so a theorem about every course holds for every order in which formatters finish or fail to start,
deadlines pass and types from the cache are delivered. The runs of the clock are courses
(`step_of_step?`), and so is everything that waits for it. What a listener of the program does when it is told
counts as moves right after the event.
-/

namespace Legible.Service

/-- What the program can do between two events. -/
inductive Move where
  /-- It asks for a type on the clock. -/
  | request (content : Text) (listener : Listener)
  | formatBlocking (content : Text)
  /-- It completes a job itself. -/
  | complete (job : Nat) (outcome : Outcome)
  | store (content formatted : Text)
  | clear
  | reset
  | locate
  /-- The machine has other executables from now on. -/
  | relocate (which : Which)
  | display (shown : Shown) (format : Option Bool)
  | close
  | toggle (shown : Shown)
  | startBatch (segments : List Segment) (shown : Shown)
  | displayAndAwait (shown : Shown) (waiter : Waiter)
  | awaitBatch (batch : Nat) (waiter : Waiter)
  | spawn (shown : Shown)
  /-- It goes to sleep. -/
  | rest (time : Nat)
  /-- It goes on. -/
  | proceed
  /-- It takes the outcome that it waited for. -/
  | take

/-- A slot is asked for by its batch alone. -/
def Move.IsOwn : Move → Prop
  | .request _ (.slot _ _) => False
  | _ => True

/-- The program makes a move. -/
def make (s : Service) : Move → Service
  | .request content listener => (s.request content listener).2
  | .formatBlocking content => (s.formatBlocking content).2
  | .complete job outcome => (s.complete job outcome).1
  | .store content formatted => { s with cache := s.cache.set content formatted }
  | .clear => { s with cache := s.cache.clear }
  | .reset => s.reset
  | .locate => s.locate.2
  | .relocate which => { s with which := which }
  | .display shown format => (s.display shown format).1
  | .close => s.close
  | .toggle shown => (s.toggle shown).1
  | .startBatch segments shown => (s.startBatch segments shown).2
  | .displayAndAwait shown waiter => (s.displayAndAwait shown waiter).2
  | .awaitBatch batch waiter => (s.awaitBatch batch waiter).2
  | .spawn shown => s.spawn shown
  | .rest time => if time = 0 then s.push (.wake .program) else s.after time .rested
  | .proceed => { s with awake := false }
  | .take => { s with received := none }

/-- A move of the program, or an event. -/
inductive Act where
  | move (m : Move)
  | event (e : Event)

/-- One act. An event that happens is no longer pending, and the others still are. -/
inductive Step : Service → Act → Service → Prop
  | move {s : Service} {m : Move} : m.IsOwn → Step s (.move m) (s.make m)
  | event {s : Service} {e : Event} {c : Clock} : s.clock.pending = e ::ₘ c.pending →
      Step s (.event e) (handle { s with clock := c } e)

theorem Step.request (s : Service) (content : Text) (l : Listener) (hl : ∀ b i, l ≠ .slot b i) :
    Step s (.move (.request content l)) (s.request content l).2 := by
  refine .move (m := .request content l) ?_
  cases l with
  | slot b i => exact hl b i rfl
  | _ => trivial

/-- Acts one after the other. -/
inductive Course (s : Service) : List Act → Service → Prop
  | nil : Course s [] s
  | snoc {as : List Act} {a : Act} {t u : Service} : Course s as t → Step t a u → Course s (as ++ [a]) u

/-- Nothing is on its way, nothing is shown and nobody was told anything; settings, cache and locator
are as they may be. -/
structure IsFresh (s : Service) : Prop where
  jobs : s.jobs = []
  pending : s.clock.pending = 0
  batches : s.batches = []
  waits : s.waits = []
  session : s.session = {}
  notices : s.notices = []

theorem isFresh_create (config : Config) (locator : Locator) (which : Which) (formatter : Formatter) :
    (create config locator which formatter).IsFresh :=
  ⟨rfl, rfl, rfl, rfl, rfl, rfl⟩

namespace Course

variable {s t u : Service} {as bs : List Act}

theorem single {a : Act} (h : Step s a t) : Course s [a] t := Course.nil.snoc h

theorem append (h : Course s as t) (h' : Course t bs u) : Course s (as ++ bs) u := by
  induction h' with
  | nil => rwa [List.append_nil]
  | snoc _ hstep ih =>
    rw [← List.append_assoc]
    exact ih.snoc hstep

/-- What holds at the start and is kept by every act holds at the end. -/
theorem invariant (P : Service → Prop) (h : Course s as t) (hs : P s)
    (step : ∀ v a w, P v → Step v a w → P w) : P t := by
  induction h with
  | nil => exact hs
  | snoc _ hstep ih => exact step _ _ _ ih hstep

end Course

/-! ## The runs of the clock are courses -/

/-- The service can come to be `t`. -/
def Leads (s t : Service) : Prop := ∃ as, Course s as t

namespace Leads

variable {s t u : Service}

theorem refl (s : Service) : Leads s s := ⟨[], .nil⟩

theorem trans (h : Leads s t) (h' : Leads t u) : Leads s u := by
  obtain ⟨as, ha⟩ := h
  obtain ⟨bs, hb⟩ := h'
  exact ⟨as ++ bs, ha.append hb⟩

theorem move {m : Move} (hm : m.IsOwn) : Leads s (s.make m) := ⟨_, .single (.move hm)⟩

end Leads

/-- A step of the clock is an event that was pending. -/
theorem step_of_step? {s t : Service} (h : s.step? = some t) : ∃ e, Step s (.event e) t := by
  unfold step? at h
  split at h
  · cases h
  · rename_i e c hc
    cases h
    exact ⟨e, .event (Clock.pending_of_next? hc)⟩

theorem step?_eq_some_getD {s : Service} (h : s.step?.isSome = true) : s.step? = some (s.step?.getD s) := by
  obtain ⟨t, ht⟩ := Option.isSome_iff_exists.mp h
  rw [ht, Option.getD_some]

/-- The clock alone makes no moves. -/
theorem course_runSteps (fuel : Nat) (s : Service) : ∃ es : List Event, Course s (es.map .event) (runSteps fuel s) := by
  induction fuel generalizing s with
  | zero => exact ⟨[], .nil⟩
  | succ fuel ih =>
    rw [runSteps]
    split
    · exact ⟨[], .nil⟩
    · split
      · exact ⟨[], .nil⟩
      · rename_i t ht
        obtain ⟨e, he⟩ := step_of_step? ht
        obtain ⟨es, hes⟩ := ih t
        exact ⟨e :: es, (Course.single he).append hes⟩

theorem leads_runSteps (fuel : Nat) (s : Service) : Leads s (runSteps fuel s) := by
  obtain ⟨es, h⟩ := course_runSteps fuel s
  exact ⟨_, h⟩

theorem leads_runUntilAwake (s : Service) : Leads s s.runUntilAwake :=
  (Leads.move (m := .proceed) trivial).trans
    ((leads_runSteps _ _).trans (Leads.move (m := .proceed) trivial))

theorem leads_sleep (s : Service) (time : Nat) : Leads s (s.sleep time) :=
  (Leads.move (m := .rest time) trivial).trans (leads_runUntilAwake _)

theorem leads_formatAwaited (s : Service) (content : Text) : Leads s (s.formatAwaited content).2 := by
  have hm : Leads s (s.request content .program).2 := .move (m := .request content .program) trivial
  unfold formatAwaited
  split
  · rename_i h
    rwa [h] at hm
  · rename_i h
    rw [h] at hm
    exact (hm.trans (leads_runUntilAwake _)).trans (.move (m := .take) trivial)

theorem leads_displayAwaited (s : Service) (shown : Shown) : Leads s (s.displayAwaited shown).2 := by
  have hm : Leads s (s.displayAndAwait shown .program).2 :=
    .move (m := .displayAndAwait shown .program) trivial
  unfold displayAwaited
  split
  · rename_i h
    rwa [h] at hm
  · rename_i h
    rw [h] at hm
    exact hm.trans (leads_runUntilAwake _)

theorem leads_update (s : Service) (segments : List Segment) (shown : Shown) (wait : Bool) :
    Leads s (s.update segments shown wait).2 := by
  have hm : Leads s (s.startBatch segments shown).2 := .move (m := .startBatch segments shown) trivial
  unfold update
  split
  · exact .refl s
  split
  · rename_i h
    rwa [h] at hm
  rename_i n t h
  rw [h] at hm
  split
  · exact hm
  have ha : Leads t (t.awaitBatch n .program).2 := .move (m := .awaitBatch n .program) trivial
  refine hm.trans ?_
  dsimp only
  split
  · rename_i h'
    rw [h'] at ha
    exact ha.trans (leads_runUntilAwake _)
  · rename_i h'
    rwa [h'] at ha

end Legible.Service
