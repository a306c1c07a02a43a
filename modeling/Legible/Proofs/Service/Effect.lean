import Legible.Proofs.Service.Course
import Legible.Proofs.Service.Ledger
import Mathlib.Logic.Relation
/-!
# What an act can do

`Effect` lists what an act can do to the ledger, with the reason for it, and `Step.effects` says that an act
does nothing else. Later results are by cases on `Effect`, and look at no operation again.
-/

namespace Legible

/-- The reply that a task has of its formatter. -/
def Task.reply? : Task → Option Reply
  | .running r | .finished r => some r
  | _ => Option.none

/-- The event that happens in an act. -/
def Service.Act.hand : Service.Act → Multiset Event
  | .move _ => 0
  | .event e => {e}

/-- The job that an act is about. -/
def Service.Act.job? : Service.Act → Option Nat
  | .move (.complete n _) => some n
  | .move _ => none
  | .event e => e.job?

/-- The act may show a diagnostic. -/
def Service.Act.Shows (shown : Shown) : Service.Act → Prop
  | .move (.display d _) | .move (.toggle d) | .move (.displayAndAwait d _) => d = shown
  | .event (.wake (.task _)) => True
  | _ => False

/-- The act may close what is shown. -/
def Service.Act.Closes : Service.Act → Prop
  | .move .close | .move (.toggle _) => True
  | _ => False

namespace Ledger

/-- The formatter was started on a type with this command line, and this is its reply. -/
def Ran (c : Ledger) (argv : List Text) (stdin : Text) (deadline : Option Nat) (r : Reply) : Prop :=
  ∃ k, c.runs[k]? = some ⟨argv, stdin, deadline⟩ ∧ c.formatter k ⟨argv, stdin, deadline⟩ = r ∧
    r.startFault = none

/-- A request for a type: the job that it adds, of number `n`, and the events that are then due for it.
What the cache holds for the type is `cached`. -/
inductive Asks (cached : Option Text) (n : Nat) (content : Text) (listener : Listener) :
    Job → Multiset Event → Prop
  | hit {t : Text} : cached = some t →
      Asks cached n content listener { content, listener } {.deliver n ⟨t, none⟩}
  | missing : cached = none →
      Asks cached n content listener { content, listener } {.deliver n (.failed content .notFound)}
  | started {argv : List Text} {deadline : Nat} : cached = none →
      Asks cached n content listener
        { content, listener, argv, wrapped := Wrapping.wrap content, deadline := some deadline
          timed := true, task := .ready }
        {.expire n, .resume n}

/-- The formatter has this reply for a job. -/
def Replied (c : Ledger) (j : Job) (r : Reply) : Prop :=
  j.task.reply? = some r ∨ j.task = .ready ∧ c.Ran j.argv j.wrapped none r

end Ledger

namespace Service

open Ledger

/-- Why a job comes to an outcome. -/
inductive Reason (a : Act) (c : Ledger) (n : Nat) (j : Job) : Outcome → Prop
  /-- The program completes it. -/
  | own {o : Outcome} : a = .move (.complete n o) → Reason a c n j o
  /-- It needed no run. -/
  | delivered {o : Outcome} : a = .event (.deliver n o) → Reason a c n j o
  | expired : a = .event (.expire n) → Reason a c n j (.failed j.content .timedOut)
  | notStarted : j.task = .ready → Reason a c n j (.failed j.content .notStarted)
  | replied {r : Reply} : c.Replied j r → Reason a c n j (.ofResult j.content (resultOf j.argv r))

/-- Why a text enters the cache for a type. -/
inductive Stores (a : Act) (c : Ledger) (content text : Text) : Prop
  /-- The program puts it there. -/
  | own : a = .move (.store content text) → Stores a c content text
  /-- A blocking run succeeded. -/
  | blocking {argv : List Text} {deadline : Nat} {r : Reply} : a = .move (.formatBlocking content) →
      c.Ran argv (Wrapping.wrap content) (some deadline) r → r.hangs = false →
      Outcome.ofResult content (resultOf argv r) = ⟨text, none⟩ → Stores a c content text
  /-- The run of a job succeeded that has no outcome yet. -/
  | live {n : Nat} {j : Job} {r : Reply} : a.job? = some n → c.jobs[n]? = some j → j.done = false →
      j.content = content → c.Replied j r →
      Outcome.ofResult content (resultOf j.argv r) = ⟨text, none⟩ → Stores a c content text

/-- One of the things that an act does; `c₀` is the ledger before the act. -/
inductive Effect (a : Act) (c₀ c : Ledger) : Ledger → Prop
  | ask {content : Text} {l : Listener} {j : Job} {es : Multiset Event} : a.job? = none →
      Asks (c₀.cache.get? content) c.jobs.length content l j es →
      (∀ b i, l = .slot b i → c₀.batches.length ≤ b ∧ b < c.batches.length) →
      Effect a c₀ c (c.ask j es)
  | batch (b : Batch) : a.job? = none → Effect a c₀ c { c with toDisplay := c.openBatch b }
  | display {shown : Shown} : a.Shows shown → shown.diagnostic.message ≠ [] →
      Effect a c₀ c { c with toDisplay := c.display shown }
  | close : a.Closes → Effect a c₀ c { c with toDisplay := c.close }
  | store {content text : Text} : Stores a c content text →
      Effect a c₀ c { c with cache := c.cache.set content text }
  | clear : a = .move .clear ∨ a = .move .reset → Effect a c₀ c { c with cache := c.cache.clear }
  | run (r : Run) : Effect a c₀ c { c with runs := c.runs ++ [r] }
  | task {n : Nat} {j : Job} {t : Task} : a.job? = some n → c.jobs[n]? = some j → j.task ≠ .none →
      (∀ r, t.reply? = some r → c.Replied j r) →
      Effect a c₀ c (c.modifyJob n fun j => { j with task := t })
  | push {n : Nat} {j : Job} {e : Event} : a.job? = some n → c.jobs[n]? = some j →
      (e = .resume n ∨ e = .finish n) → Effect a c₀ c (c.push e)
  | complete {n : Nat} {j : Job} {o : Outcome} : a.job? = some n → c.jobs[n]? = some j →
      j.done = false → Reason a c n j o → Effect a c₀ c (c.complete n o)

/-- What an act does, one thing after the other. -/
abbrev Effects (a : Act) (c₀ : Ledger) : Ledger → Ledger → Prop := Relation.ReflTransGen (Effect a c₀)

theorem Effect.effects {a : Act} {c₀ c d : Ledger} (h : Effect a c₀ c d) : Effects a c₀ c d :=
  Relation.ReflTransGen.single h

/-! ## Jobs on their way -/

section Jobs

variable {a : Act} {c₀ : Ledger} {s : Service} {hand : Multiset Event} {n : Nat} {j : Job}

theorem getElem?_modifyJob (hj : s.jobs[n]? = some j) (f : Job → Job) :
    (s.modifyJob n f).jobs[n]? = some (f j) := by
  simp [modifyJob, hj]

theorem complete_effects {o : Outcome} (ha : a.job? = some n)
    (hr : ∀ j, s.jobs[n]? = some j → j.done = false → Reason a (s.ledger hand) n j o) :
    Effects a c₀ (s.ledger hand) ((s.ledger hand).complete n o) := by
  -- only a job that is there and has no outcome yet is changed
  cases hj : s.jobs[n]? with
  | none =>
    have hc : (s.ledger hand).complete n o = s.ledger hand := by
      unfold Ledger.complete
      rw [show (s.ledger hand).jobs[n]? = none from hj]
    rw [hc]
  | some j =>
    by_cases hd : j.done = true
    · have hc : (s.ledger hand).complete n o = s.ledger hand := by
        unfold Ledger.complete
        rw [show (s.ledger hand).jobs[n]? = some j from hj]
        simp only [hd, if_true]
      rw [hc]
    · have hd : j.done = false := by simpa using hd
      exact (Effect.complete ha hj hd (hr j hj hd)).effects

theorem endTask_effects (e : Ending) (ha : a.job? = some n) (hj : s.jobs[n]? = some j) (ht : j.task ≠ .none) :
    Effects a c₀ (s.ledger hand) ((s.endTask n e).ledger hand) := by
  refine (Effect.task ha hj ht ?_).effects
  intro r hr
  cases hr

theorem completeInTask_effects {o : Outcome} (ha : a.job? = some n) (hj : s.jobs[n]? = some j)
    (ht : j.task ≠ .none) (hr : j.done = false → Reason a (s.ledger hand) n j o) :
    Effects a c₀ (s.ledger hand) ((s.completeInTask n o).ledger hand) := by
  have hc : Effects a c₀ (s.ledger hand) ((s.complete n o).1.ledger hand) := by
    rw [ledger_complete]
    refine complete_effects ha ?_
    rintro j' hj' hd
    cases hj.symm.trans hj'
    exact hr hd
  have hjobs : (s.complete n o).1.jobs[n]? = some (j.completed o) := by
    have h := congrArg Ledger.jobs (ledger_complete s hand n o)
    rw [Ledger.jobs_complete] at h
    change (s.complete n o).1.jobs = s.jobs.modify n _ at h
    rw [h, List.getElem?_modify, hj]
    simp
  have ht' : (j.completed o).task ≠ .none := by
    unfold Job.completed
    split <;> exact ht
  unfold completeInTask
  split <;> rename_i h <;> rw [h] at hc hjobs <;> exact hc.trans (endTask_effects _ ha hjobs ht')

theorem finishTask_effects {r : Reply} (ha : a.job? = some n) (hj : s.jobs[n]? = some j) (ht : j.task ≠ .none)
    (hr : (s.ledger hand).Replied j r) : Effects a c₀ (s.ledger hand) ((s.finishTask n j r).ledger hand) := by
  unfold finishTask
  split
  · exact endTask_effects _ ha hj ht
  · rename_i hd
    have hd : j.done = false := by simpa using hd
    unfold conclude
    dsimp only
    split
    · -- the text enters the cache before the listener is told
      rename_i herr
      have ho : Outcome.ofResult j.content (resultOf j.argv r)
          = ⟨(Outcome.ofResult j.content (resultOf j.argv r)).text, none⟩ := by rw [← herr]
      have hstore : Stores a (s.ledger hand) j.content (Outcome.ofResult j.content (resultOf j.argv r)).text :=
        .live ha hj hd rfl hr ho
      refine (Effect.store hstore).effects.trans ?_
      exact completeInTask_effects (s := { s with cache := s.cache.set j.content _ }) ha hj ht fun _ => .replied hr
    · exact completeInTask_effects (s := s.warn _) ha hj ht fun _ => .replied hr

/-- A run adds to the runs, and its reply is the formatter's. -/
theorem ran_run (s : Service) (hand : Multiset Event) (r : Run) (h : (s.run r).1.startFault = none) :
    ((s.run r).2.ledger hand).Ran r.argv r.stdin r.deadline (s.run r).1 :=
  ⟨s.runs.length, by simp [run, ledger], rfl, h⟩

theorem resume_effects (ha : a.job? = some n) :
    Effects a c₀ (s.ledger hand) ((s.resume n).ledger hand) := by
  unfold resume
  split
  · exact .refl
  · rename_i j hj
    split
    · rename_i ht
      have hne : j.task ≠ .none := by simp [ht]
      have hrun : Effects a c₀ (s.ledger hand) ((s.run ⟨j.argv, j.wrapped, none⟩).2.ledger hand) :=
        (Effect.run _).effects
      have hran := ran_run s hand ⟨j.argv, j.wrapped, none⟩
      generalize hs : s.run ⟨j.argv, j.wrapped, none⟩ = p at hrun hran
      obtain ⟨reply, t⟩ := p
      have hjt : t.jobs[n]? = some j := by
        cases hs
        exact hj
      refine hrun.trans ?_
      dsimp only
      split
      · exact completeInTask_effects (s := t.warnStart _ _) ha hjt hne fun _ => .notStarted ht
      · rename_i hok
        have hrep : (t.ledger hand).Replied j reply := .inr ⟨ht, hran hok⟩
        split
        · exact finishTask_effects ha hjt hne hrep
        · have htask : Effect a c₀ (t.ledger hand)
              ((t.modifyJob n fun j => { j with task := .running reply }).ledger hand) := by
            refine .task ha hjt hne ?_
            intro r hr
            cases hr
            exact hrep
          refine htask.effects.trans ?_
          rw [ledger_after _ _ rfl]
          exact (Effect.push ha (getElem?_modifyJob hjt _) (.inr rfl)).effects
    · rename_i reply ht
      exact finishTask_effects ha hj (by simp [ht]) (.inl (by simp [ht, Task.reply?]))
    · rename_i started ht
      exact endTask_effects (s := s) .cancelled ha hj (by simp [ht])
    · exact .refl

theorem finish_effects (ha : a.job? = some n) :
    Effects a c₀ (s.ledger hand) ((s.finish n).ledger hand) := by
  unfold finish
  split
  · rename_i reply hj
    refine (Effect.task (t := .finished reply) ha hj (by simp) ?_).effects.trans ?_
    · intro r hr
      cases hr
      exact .inl rfl
    · rw [ledger_push _ _ rfl]
      exact (Effect.push ha (getElem?_modifyJob hj _) (.inl rfl)).effects
  · exact .refl

theorem stop_effects (ha : a.job? = some n) (hj : s.jobs[n]? = some j) :
    Effects a c₀ (s.ledger hand) ((s.stop n j.task).ledger hand) := by
  have stopping (started : Bool) (ht : j.task ≠ .none) : Effects a c₀ (s.ledger hand)
      ((s.modifyJob n fun j => { j with task := .stopping started }).ledger hand) :=
    (Effect.task ha hj ht (by intro r hr; cases hr)).effects
  unfold stop
  split
  · rename_i ht
    exact stopping false (by simp [ht])
  · rename_i ht
    refine (stopping true (by simp [ht])).trans ?_
    rw [ledger_push _ _ rfl]
    exact (Effect.push ha (getElem?_modifyJob hj _) (.inl rfl)).effects
  · rename_i ht
    exact stopping true (by simp [ht])
  · exact .refl

/-- Stopping a task keeps everything of a job but the task. -/
theorem getElem?_stop (hj : s.jobs[n]? = some j) :
    ∃ t, (s.stop n j.task).jobs[n]? = some { j with task := t } := by
  unfold stop
  split
  · exact ⟨_, getElem?_modifyJob hj _⟩
  · exact ⟨_, getElem?_modifyJob hj _⟩
  · exact ⟨_, getElem?_modifyJob hj _⟩
  · exact ⟨j.task, hj⟩

theorem expire_effects (ha : a = .event (.expire n)) :
    Effects a c₀ (s.ledger hand) ((s.expire n).ledger hand) := by
  have ha' : a.job? = some n := by rw [ha]; rfl
  unfold expire
  split
  · exact .refl
  · rename_i j hj
    split
    · exact .refl
    · -- the job fails after its task was told to end, and the task alone has changed by then
      refine (stop_effects ha' hj).trans ?_
      rw [ledger_completeAlone]
      refine complete_effects ha' ?_
      intro j' hj' _
      obtain ⟨t, ht⟩ := getElem?_stop hj
      cases ht.symm.trans hj'
      exact .expired ha

end Jobs

/-! ## Requests -/

section Requests

variable {a : Act} {c₀ : Ledger} {s : Service} {hand : Multiset Event}

/-- A run for a type cannot be started under the settings, although there is a formatter. -/
def Refuses (s : Service) (content : Text) (f : Fault) : Prop :=
  s.cache.get? content = none ∧ ∃ c, s.locate.1 = some c ∧ s.argv c = .error f

theorem ledger_addJob (s : Service) (hand : Multiset Event) (j : Job) (es : Multiset Event) :
    { (s.addJob j).ledger hand with due := es + (s.ledger hand).due } = (s.ledger hand).ask j es := rfl

theorem ledger_startJob (s : Service) (hand : Multiset Event) (content : Text) (l : Listener) (argv : List Text) :
    (s.startJob content l argv).ledger hand = (s.ledger hand).ask
      { content, listener := l, argv, wrapped := Wrapping.wrap content
        deadline := some (s.clock.now + s.config.timeoutMs), timed := true, task := .ready }
      {.expire s.jobs.length, .resume s.jobs.length} := by
  rw [startJob, ledger_after _ _ rfl, ledger_push _ _ rfl, ← ledger_addJob]
  simp only [Ledger.push, Multiset.insert_eq_cons, Multiset.cons_add, Multiset.singleton_add]
  rfl

/-- A request adds a job, or is refused and changes nothing. -/
theorem request_cases (s : Service) (content : Text) (l : Listener) (hand : Multiset Event) :
    (∃ n j es, (s.request content l).1 = .ok n ∧ Asks (s.cache.get? content) s.jobs.length content l j es ∧
      (s.request content l).2.ledger hand = (s.ledger hand).ask j es) ∨
    (∃ f, (s.request content l).1 = .error f ∧ s.Refuses content f ∧
      (s.request content l).2.ledger hand = s.ledger hand) := by
  unfold request
  dsimp only
  split
  · rename_i t ht
    refine .inl ⟨_, _, _, rfl, .hit ht, ?_⟩
    rw [ledger_after _ _ rfl, ← ledger_addJob, Multiset.singleton_add]
    rfl
  rename_i hmiss
  have hloc : s.locate.2.ledger hand = s.ledger hand := rfl
  have hlen : s.locate.2.jobs.length = s.jobs.length := rfl
  have hargv (c : Command) : s.locate.2.argv c = s.argv c := rfl
  split
  · rename_i t hl
    rw [hl] at hloc
    refine .inl ⟨_, _, _, rfl, .missing hmiss, ?_⟩
    rw [ledger_push _ _ rfl, ← hloc, ← ledger_addJob, Multiset.singleton_add]
    rfl
  · rename_i c t hl
    rw [hl] at hloc hlen hargv
    split
    · rename_i f hf
      exact .inr ⟨f, rfl, ⟨hmiss, c, by rw [hl], hargv c ▸ hf⟩, hloc⟩
    · rename_i argv _
      have hstart := ledger_startJob t hand content l argv
      rw [hloc, hlen] at hstart
      exact .inl ⟨_, _, _, rfl, .started hmiss, hstart⟩

theorem request_effects {content : Text} {l : Listener} (ha : a.job? = none)
    (hc : s.cache.get? content = c₀.cache.get? content)
    (hl : ∀ b i, l = .slot b i → c₀.batches.length ≤ b ∧ b < s.batches.length) :
    Effects a c₀ (s.ledger hand) ((s.request content l).2.ledger hand) := by
  rcases request_cases s content l hand with ⟨_, j, es, _, hask, h⟩ | ⟨_, _, _, h⟩
  · rw [h]
    refine (Effect.ask ha (hc ▸ hask) ?_).effects
    simpa [ledger] using hl
  · rw [h]

/-- A request keeps the cache and the batches. -/
theorem request_frame (s : Service) (content : Text) (l : Listener) :
    (s.request content l).2.cache = s.cache ∧ (s.request content l).2.batches.length = s.batches.length := by
  rcases request_cases s content l 0 with ⟨_, _, _, _, _, h⟩ | ⟨_, _, _, h⟩ <;>
  · have hb := congrArg (fun c => c.batches.length) h
    simp only [ledger, Ledger.ask, List.length_map] at hb
    exact ⟨congrArg Ledger.cache h, hb⟩

theorem requestSlots_effects (ha : a.job? = none) (batch : Nat) (segments : List Segment) (places : List Nat)
    (hc : s.cache = c₀.cache) (hb : c₀.batches.length ≤ batch ∧ batch < s.batches.length) :
    Effects a c₀ (s.ledger hand) ((s.requestSlots batch segments places).2.ledger hand) := by
  -- a request keeps the cache and the batches, so that `hc` and `hb` hold of the next one
  induction places generalizing s with
  | nil => exact .refl
  | cons i r ih =>
    rw [requestSlots]
    split
    · exact ih hc hb
    · rename_i seg _
      have hreq : Effects a c₀ (s.ledger hand) ((s.request seg.content (.slot batch i)).2.ledger hand) := by
        refine request_effects ha (by rw [hc]) ?_
        rintro b j ⟨⟩
        exact hb
      obtain ⟨hcache, hlen⟩ := request_frame s seg.content (.slot batch i)
      split
      · rename_i t h
        rwa [h] at hreq
      · rename_i t h
        rw [h] at hreq hcache hlen
        exact hreq.trans (ih (hcache.trans hc) ⟨hb.1, hlen.symm ▸ hb.2⟩)

theorem startBatch_effects (ha : a.job? = none) (segments : List Segment) (shown : Shown) (hc : s.cache = c₀.cache)
    (hb : c₀.batches.length ≤ s.batches.length) :
    Effects a c₀ (s.ledger hand) ((s.startBatch segments shown).2.ledger hand) := by
  unfold startBatch
  dsimp only
  generalize hbatch : ({ shown, slots := segments, remaining := _, result := _ } : Batch) = b
  have hopen : Effect a c₀ (s.ledger hand) (ledger { s with batches := s.batches ++ [b] } hand) := by
    have h : ledger { s with batches := s.batches ++ [b] } hand
        = { s.ledger hand with toDisplay := (s.ledger hand).openBatch b.bare } := by
      simp [ledger, Display.openBatch]
    rw [h]
    exact .batch b.bare ha
  refine hopen.effects.trans (requestSlots_effects (s := { s with batches := s.batches ++ [b] }) ha _ _ _ hc ?_)
  simp only [List.length_append, List.length_singleton]
  omega

/-! ## The display -/

/-- The service with a diagnostic on display as it is. -/
def present (s : Service) (shown : Shown) : Service :=
  let segments := Message.segments shown.diagnostic.message
  (render { s with
    session := { current := some shown, segments, view := s.session.view, pending := none, errors := [] } }
    shown.diagnostic segments).1

/-- Showing a diagnostic as it is changes the display alone. -/
theorem present_aside (s : Service) (shown : Shown) : ∃ session renderings,
    s.present shown = { s with session, renderings } ∧ session.current = some shown ∧ session.pending = none := by
  obtain ⟨_, _, h⟩ := render_aside { s with session :=
    { current := some shown, segments := Message.segments shown.diagnostic.message, view := s.session.view } }
    shown.diagnostic (Message.segments shown.diagnostic.message)
  exact ⟨_, _, h, rfl, rfl⟩

theorem ledger_present (s : Service) (shown : Shown) (hand : Multiset Event) :
    (s.present shown).ledger hand = { s.ledger hand with toDisplay := (s.ledger hand).display shown } := by
  unfold present
  rw [ledger_render]
  rfl

theorem display_of_empty {shown : Shown} (h : shown.diagnostic.message = []) (s : Service) (format : Option Bool) :
    (s.display shown format).1 = s := by
  simp [display, h]

/-- Showing a diagnostic is one rendering, after which a batch may be started. -/
theorem display_cases {shown : Shown} (hne : shown.diagnostic.message ≠ []) (s : Service) (format : Option Bool) :
    (s.display shown format).1 = s.present shown ∨
      ∃ u p, ((s.present shown).startBatch (Message.segments shown.diagnostic.message) shown).2 = u ∧
        (s.display shown format).1 = { u with session := { u.session with pending := p } } := by
  have hempty : shown.diagnostic.message.isEmpty = false := by simpa using hne
  unfold display
  simp only [hempty, Bool.false_eq_true, if_false]
  split
  · rename_i t f h
    exact .inl (congrArg Prod.fst h).symm
  · rename_i t view h
    have ht : t = s.present shown := (congrArg Prod.fst h).symm
    subst ht
    split
    · split
      · rename_i f u hs
        exact .inr ⟨u, _, by rw [hs], rfl⟩
      · rename_i n u hs
        exact .inr ⟨u, _, by rw [hs], rfl⟩
    · exact .inl rfl

theorem display_effects (ha : a.job? = none) {shown : Shown} (hs : a.Shows shown) (format : Option Bool)
    (hc : s.cache = c₀.cache) (hb : c₀.batches.length ≤ s.batches.length) :
    Effects a c₀ (s.ledger hand) ((s.display shown format).1.ledger hand) := by
  by_cases hne : shown.diagnostic.message = []
  · rw [display_of_empty hne]
  have hledger := ledger_present s shown hand
  have hpresent : Effects a c₀ (s.ledger hand) ((s.present shown).ledger hand) := by
    rw [hledger]
    exact (Effect.display hs hne).effects
  have hcache : (s.present shown).cache = s.cache := congrArg Ledger.cache hledger
  have hlen : (s.present shown).batches.length = s.batches.length := by
    have h := congrArg (fun c => c.batches.length) hledger
    simpa [ledger, Display.display, Display.present, Display.render] using h
  rcases display_cases hne s format with h | ⟨u, p, hu, h⟩
  · rw [h]
    exact hpresent
  · rw [h]
    subst hu
    exact hpresent.trans (startBatch_effects ha _ _ (hcache.trans hc) (hlen ▸ hb))

theorem toggle_effects {shown : Shown} (ha : a = .move (.toggle shown)) (hc : s.cache = c₀.cache)
    (hb : c₀.batches.length ≤ s.batches.length) :
    Effects a c₀ (s.ledger hand) ((s.toggle shown).1.ledger hand) := by
  subst ha
  have hs : (Act.move (.toggle shown)).Shows shown := rfl
  unfold toggle
  split
  · exact (Effect.close (a := .move (.toggle shown)) trivial).effects
  · exact display_effects rfl hs none hc hb

/-- Who waits does not count. -/
theorem ledger_displayAndAwait (s : Service) (shown : Shown) (w : Waiter) (hand : Multiset Event) :
    (s.displayAndAwait shown w).2.ledger hand = (s.display shown (some true)).1.ledger hand := by
  unfold displayAndAwait
  split
  · rename_i t f h
    rw [h]
  · rename_i t view h
    rw [h]
    split
    · rfl
    · rename_i n _
      have hw := ledger_awaitBatch t hand n w
      split <;> rename_i u hu <;> rw [hu] at hw <;> exact hw

/-- A task that goes on shows its diagnostic, or nothing happens that counts. -/
theorem ledger_wakeTask (s : Service) (n : Nat) (hand : Multiset Event) :
    (∃ shown, s.waits[n]? = some (.ready shown) ∧
      (s.wakeTask n).ledger hand = (s.display shown (some true)).1.ledger hand) ∨
    (∀ shown, s.waits[n]? ≠ some (.ready shown)) ∧ (s.wakeTask n).ledger hand = s.ledger hand := by
  unfold wakeTask
  split
  · rename_i shown hw
    refine .inl ⟨shown, hw, ?_⟩
    rw [← ledger_displayAndAwait s shown (.task n)]
    split <;> rename_i u hu <;> rw [hu] <;> exact ledger_waits ..
  · rename_i hw
    exact .inr ⟨fun _ h => (nomatch hw.symm.trans h), rfl⟩
  · rename_i hw _
    exact .inr ⟨hw, rfl⟩

theorem wakeTask_effects {n : Nat} (ha : a = .event (.wake (.task n))) (hc : s.cache = c₀.cache)
    (hb : c₀.batches.length ≤ s.batches.length) :
    Effects a c₀ (s.ledger hand) ((s.wakeTask n).ledger hand) := by
  subst ha
  have hs (shown : Shown) : (Act.event (.wake (.task n))).Shows shown := trivial
  rcases ledger_wakeTask s n hand with ⟨shown, _, h⟩ | ⟨_, h⟩
  · rw [h]
    exact display_effects rfl (hs shown) (some true) hc hb
  · rw [h]

/-! ## Blocking runs -/

theorem runBlocking_effects (content : Text) (argv : List Text) (ha : a = .move (.formatBlocking content)) :
    Effects a c₀ (s.ledger hand) ((s.runBlocking content argv).2.ledger hand) := by
  unfold runBlocking
  have hran := ran_run s hand ⟨argv, Wrapping.wrap content, some s.config.timeoutMs⟩
  have hrun : Effects a c₀ (s.ledger hand)
      ((s.run ⟨argv, Wrapping.wrap content, some s.config.timeoutMs⟩).2.ledger hand) := (Effect.run _).effects
  generalize s.run ⟨argv, Wrapping.wrap content, some s.config.timeoutMs⟩ = p at hrun hran
  obtain ⟨reply, t⟩ := p
  refine hrun.trans ?_
  dsimp only
  split
  · exact .refl
  rename_i hok
  split
  · exact .refl
  rename_i hhangs
  unfold conclude
  dsimp only
  split
  · rename_i herr
    refine (Effect.store (.blocking ha (hran hok) (by simpa using hhangs) ?_)).effects
    rw [← herr]
  · exact .refl

theorem formatBlocking_effects (content : Text) (ha : a = .move (.formatBlocking content)) :
    Effects a c₀ (s.ledger hand) ((s.formatBlocking content).2.ledger hand) := by
  unfold formatBlocking
  split
  · exact .refl
  have hloc : s.locate.2.ledger hand = s.ledger hand := rfl
  split
  · rename_i t hl
    rw [hl] at hloc
    exact hloc ▸ .refl
  · rename_i c t hl
    rw [hl] at hloc
    rw [← hloc]
    split
    · exact .refl
    · exact runBlocking_effects content _ ha

end Requests

/-! ## Acts -/

/-- What a move does to the ledger. -/
theorem make_effects {m : Move} (hm : m.IsOwn) (s : Service) :
    Effects (.move m) (s.ledger 0) (s.ledger 0) ((s.make m).ledger 0) := by
  have hb : (s.ledger 0).batches.length ≤ s.batches.length := by simp [ledger]
  cases m with
  | request content l =>
    refine request_effects rfl rfl ?_
    rintro b i rfl
    exact hm.elim
  | formatBlocking content => exact formatBlocking_effects content rfl
  | complete n o =>
    change Effects _ _ _ ((s.complete n o).1.ledger 0)
    rw [ledger_complete]
    exact complete_effects rfl fun _ _ _ => .own rfl
  | store content formatted => exact (Effect.store (.own rfl)).effects
  | clear => exact (Effect.clear (.inl rfl)).effects
  | reset => exact (Effect.clear (.inr rfl)).effects
  | locate => exact .refl
  | relocate which => exact .refl
  | display shown format => exact display_effects (a := .move (.display shown format)) rfl rfl format rfl hb
  | close => exact (Effect.close (a := .move .close) trivial).effects
  | toggle shown => exact toggle_effects rfl rfl hb
  | startBatch segments shown => exact startBatch_effects rfl segments shown rfl hb
  | displayAndAwait shown w =>
    change Effects _ _ _ ((s.displayAndAwait shown w).2.ledger 0)
    rw [ledger_displayAndAwait]
    exact display_effects (a := .move (.displayAndAwait shown w)) rfl rfl (some true) rfl hb
  | awaitBatch n w =>
    change Effects _ _ _ ((s.awaitBatch n w).2.ledger 0)
    rw [ledger_awaitBatch]
  | spawn shown =>
    change Effects _ _ _ ((s.spawn shown).ledger 0)
    rw [spawn, ledger_push_wake]
    exact .refl
  | rest time =>
    change Effects _ _ _ ((if time = 0 then s.push (.wake .program) else s.after time .rested).ledger 0)
    split
    · rw [ledger_push_wake]
    · rw [ledger_after_rested]
  | proceed => exact .refl
  | take => exact .refl

/-- What an event does to the ledger. -/
theorem handle_effects (e : Event) (c₀ : Ledger) (s : Service) (hand : Multiset Event)
    (hc : s.cache = c₀.cache) (hb : c₀.batches.length ≤ s.batches.length) :
    Effects (.event e) c₀ (s.ledger hand) ((handle s e).ledger hand) := by
  cases e with
  | resume n => exact resume_effects rfl
  | finish n => exact finish_effects rfl
  | expire n => exact expire_effects rfl
  | deliver n o =>
    change Effects _ _ _ ((s.completeAlone n o).ledger hand)
    rw [ledger_completeAlone]
    exact complete_effects rfl fun _ _ _ => .delivered rfl
  | rested =>
    change Effects _ _ _ ((s.push (.wake .program)).ledger hand)
    rw [ledger_push_wake]
  | wake w =>
    cases w with
    | program => exact .refl
    | task n => exact wakeTask_effects rfl hc hb

/-- An act does to the ledger what `Effect` lists. -/
theorem Step.effects {s t : Service} {a : Act} (h : Step s a t) :
    Effects a (s.ledger 0) (s.ledger 0) (t.ledger a.hand) := by
  cases h with
  | move hm => exact make_effects hm s
  | @event e c hp =>
    rw [← ledger_of_pending hp]
    exact handle_effects e _ _ _ rfl (by simp [ledger])

end Service

end Legible
