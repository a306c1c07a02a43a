import Legible.Service.Run
import Legible.Proofs.Service.Clock
import Mathlib.Data.Multiset.Filter
/-!
# The ledger of a service

Of a service, the ledger keeps what the requests and the display come to: the jobs with the events that are
due for them, what watchers heard, the runs, the cache, the batches, and what is shown. Who waits, what
was warned of and in which order things happen is left out. An operation that only touches what is left
out keeps the ledger; completing a job, showing a diagnostic and closing it are operations on ledgers.

An event that is happening is no longer pending, but the ledger still counts it as due until it is over:
it is then in `hand`.
-/

namespace Legible

section Lists

variable {α β : Type} {l : List α} {a : α} {n : Nat}

theorem set_eq_self (h : l[n]? = some a) : l.set n a = l := by
  obtain ⟨_, rfl⟩ := List.getElem?_eq_some_iff.mp h
  exact List.set_getElem_self _

theorem set_eq_modify (h : l[n]? = some a) (f : α → α) : l.set n (f a) = l.modify n f := by
  refine List.ext_getElem? fun i => ?_
  rw [List.getElem?_set, List.getElem?_modify]
  obtain ⟨hn, rfl⟩ := List.getElem?_eq_some_iff.mp h
  by_cases hi : n = i
  · subst i
    simp [hn]
  · simp [hi]

theorem set_modify (l : List α) (n : Nat) (a : α) (f : α → α) : (l.set n a).modify n f = l.set n (f a) := by
  refine List.ext_getElem? fun i => ?_
  rw [List.getElem?_modify, List.getElem?_set, List.getElem?_set]
  by_cases hi : n = i
  · subst i
    by_cases hn : n < l.length <;> simp [hn]
  · cases l[i]? <;> simp [hi]

theorem map_modify {f : α → α} {f' : β → β} (g : α → β) (h : ∀ a, g (f a) = f' (g a)) (n : Nat) :
    (l.modify n f).map g = (l.map g).modify n f' := by
  refine List.ext_getElem? fun i => ?_
  rw [List.getElem?_map, List.getElem?_modify, List.getElem?_modify, List.getElem?_map]
  by_cases hi : n = i <;> cases l[i]? <;> simp [hi, h]

/-- What one more element of `extra` does to a list that is put together from a list. -/
theorem flatMap_modify_perm {f : α → α} {g : α → List β} {extra : List β} (h : l[n]? = some a)
    (hf : g (f a) = g a ++ extra) : ((l.modify n f).flatMap g).Perm (l.flatMap g ++ extra) := by
  induction l generalizing n with
  | nil => cases h
  | cons x r ih =>
    cases n with
    | zero =>
      cases h
      rw [List.modify_zero_cons, List.flatMap_cons, List.flatMap_cons, hf, List.append_assoc, List.append_assoc]
      exact List.perm_append_comm.append_left _
    | succ n =>
      rw [List.modify_succ_cons, List.flatMap_cons, List.flatMap_cons, List.append_assoc]
      exact (ih h).append_left _

end Lists

/-- The job that an event is about. -/
def Event.job? : Event → Option Nat
  | .resume n | .finish n | .expire n | .deliver n _ => some n
  | .rested | .wake _ => none

/-- What a watcher was told. -/
def Notice.heard? : Notice → Option (Nat × Outcome)
  | .heard _ watcher o => some (watcher, o)
  | .fault _ => none

namespace Batch

/-- The batch, whoever waits for it. -/
def bare (b : Batch) : Batch := { b with waiters := [] }

/-- An outcome in its slot. -/
def put (b : Batch) (index : Nat) (o : Outcome) : Batch :=
  { b with slots := b.slots.modify index (·.withContent o.text), remaining := b.remaining - 1 }

/-- With its result, if all its segments have landed. -/
def settled (b : Batch) : Batch :=
  if b.remaining = 0 && b.result.isNone then { b with result := some b.slots } else b

@[simp] theorem shown_settled (b : Batch) : b.settled.shown = b.shown := by
  unfold settled
  split <;> rfl

@[simp] theorem slots_settled (b : Batch) : b.settled.slots = b.slots := by
  unfold settled
  split <;> rfl

end Batch

/-- What a watcher hears. -/
def Listener.hears (l : Listener) (o : Outcome) : List (Nat × Outcome) :=
  match l with
  | .watcher w _ => [(w, o)]
  | _ => []

/-- The job with an outcome, unless it has one already. -/
def Job.completed (j : Job) (o : Outcome) : Job := if j.done then j else { j with toPromise := j.fix o }

/-- What is on display, and the batches that are to change it. -/
structure Display where
  config : Config
  /-- The program takes renderings. -/
  takes : Bool
  batches : List Batch
  session : Session
  views : List View

namespace Display

/-- The diagnostic of this handle is the one on display. -/
def shows (c : Display) (shown : Shown) : Bool :=
  match c.session.current with
  | some d => d.handle = shown.handle
  | none => false

/-- A new rendering; the one before stays if there is none. -/
def render (c : Display) (d : Diagnostic) (segments : List Segment) : Display :=
  let view? := (View.ofDiagnostic d segments c.config.title).toOption
  { c with
    session := { c.session with view := view? <|> c.session.view }
    views := c.views ++ if c.takes then view?.toList else [] }

/-- A diagnostic on display, with these segments and errors. -/
def present (c : Display) (d : Diagnostic) (segments : List Segment) (errors : List Text) : Display :=
  { c with session := { c.session with segments, errors } }.render d segments

/-- An outcome has landed in its slot of a batch. -/
def land (c : Display) (batch index : Nat) (o : Outcome) : Display :=
  match c.batches[batch]? with
  | none => c
  | some b =>
    let c' := { c with batches := c.batches.set batch (b.put index o).settled }
    if c.shows b.shown then
      c'.present b.shown.diagnostic (b.put index o).slots (c.session.errors ++ o.error.toList)
    else c'

/-- A diagnostic is shown as it is. -/
def display (c : Display) (shown : Shown) : Display :=
  { c with session := { c.session with current := some shown } }.present shown.diagnostic
    (Message.segments shown.diagnostic.message) []

/-- Nothing is shown any more. -/
def close (c : Display) : Display := { c with session := {} }

/-- One more batch. -/
def openBatch (c : Display) (b : Batch) : Display := { c with batches := c.batches ++ [b] }

/-- A listener was told: what is on display changes if it is a slot. -/
def tell (c : Display) (l : Listener) (o : Outcome) : Display :=
  match l with
  | .slot b i => c.land b i o
  | _ => c

theorem length_batches_tell (c : Display) (l : Listener) (o : Outcome) :
    (c.tell l o).batches.length = c.batches.length := by
  cases l with
  | slot b i =>
    rw [tell, land]
    split
    · rfl
    · dsimp only
      split <;> exact List.length_set
  | _ => rfl

theorem config_tell (c : Display) (l : Listener) (o : Outcome) : (c.tell l o).config = c.config := by
  cases l with
  | slot b i =>
    rw [tell, land]
    split
    · rfl
    · dsimp only
      split <;> rfl
  | _ => rfl

end Display

/-- What the requests to a service and its display come to. -/
structure Ledger extends Display where
  formatter : Formatter
  jobs : List Job
  /-- The events about jobs that are still to happen. -/
  due : Multiset Event
  heard : List (Nat × Outcome)
  runs : List Run
  cache : Cache

namespace Ledger

/-- An event is to happen. -/
def push (c : Ledger) (e : Event) : Ledger := { c with due := e ::ₘ c.due }

/-- One more job, with the events that are due for it. -/
def ask (c : Ledger) (j : Job) (es : Multiset Event) : Ledger :=
  { c with jobs := c.jobs ++ [j], due := es + c.due }

/-- Changes a job. -/
def modifyJob (c : Ledger) (n : Nat) (f : Job → Job) : Ledger := { c with jobs := c.jobs.modify n f }

/-- A listener was told. -/
def tell (c : Ledger) (l : Listener) (o : Outcome) : Ledger :=
  { c with toDisplay := c.toDisplay.tell l o, heard := c.heard ++ l.hears o }

/-- A job is completed, unless it has its outcome already. -/
def complete (c : Ledger) (job : Nat) (o : Outcome) : Ledger :=
  match c.jobs[job]? with
  | none => c
  | some j =>
    if j.done then c
    else (c.modifyJob job fun j => { j with toPromise := j.fix o }).tell j.listener o

/-! ## What completing a job changes -/

section Frame

variable (c : Ledger) (n : Nat) (o : Outcome)

theorem complete_frame : (c.complete n o).due = c.due ∧ (c.complete n o).runs = c.runs ∧
    (c.complete n o).formatter = c.formatter := by
  unfold complete
  split
  · exact ⟨rfl, rfl, rfl⟩
  · split <;> exact ⟨rfl, rfl, rfl⟩

@[simp] theorem due_complete : (c.complete n o).due = c.due := (c.complete_frame n o).1

@[simp] theorem runs_complete : (c.complete n o).runs = c.runs := (c.complete_frame n o).2.1

@[simp] theorem formatter_complete : (c.complete n o).formatter = c.formatter := (c.complete_frame n o).2.2

theorem length_batches_complete : (c.complete n o).batches.length = c.batches.length := by
  unfold complete
  split
  · rfl
  · split
    · rfl
    · exact Display.length_batches_tell ..

theorem config_complete : (c.complete n o).config = c.config := by
  unfold complete
  split
  · rfl
  · split
    · rfl
    · exact Display.config_tell ..

/-- Only the promise of the job changes, and only if it has no outcome yet. -/
theorem jobs_complete : (c.complete n o).jobs = c.jobs.modify n (·.completed o) := by
  unfold complete
  split
  · rename_i h
    rw [List.modify_eq_self (by simpa using h)]
  · rename_i j h
    rw [← set_eq_modify h]
    split
    · rename_i hd
      rw [Job.completed, if_pos hd, set_eq_self h]
    · rename_i hd
      rw [Job.completed, if_neg hd]
      exact (set_eq_modify h fun j => { j with toPromise := j.fix o }).symm

/-- The listener of the job is told. -/
theorem complete_of_undone {c : Ledger} {n : Nat} {j : Job} (hj : c.jobs[n]? = some j) (hd : j.done = false)
    (o : Outcome) :
    c.complete n o = (c.modifyJob n fun j => { j with toPromise := j.fix o }).tell j.listener o := by
  unfold complete
  simp only [hj, hd, Bool.false_eq_true, if_false]

end Frame

end Ledger

namespace Service

variable (s : Service) (hand : Multiset Event)

/-- What the requests to the service and its display come to, with an event in hand. -/
def ledger : Ledger where
  config := s.config
  takes := s.onRender.isSome
  formatter := s.formatter
  jobs := s.jobs
  due := (hand + s.clock.pending).filter (·.job?.isSome)
  heard := s.notices.filterMap Notice.heard?
  runs := s.runs
  cache := s.cache
  batches := s.batches.map Batch.bare
  session := { s.session with pending := none }
  views := s.renderings.map (·.2)

/-! ## Events -/

theorem ledger_push {e : Event} (h : e.job?.isSome = true) : (s.push e).ledger hand = (s.ledger hand).push e := by
  simp only [ledger, push, Ledger.push, Clock.pending_push, Multiset.add_cons,
    Multiset.filter_cons_of_pos, h]

theorem ledger_after {e : Event} (h : e.job?.isSome = true) (delay : Nat) :
    (s.after delay e).ledger hand = (s.ledger hand).push e := by
  simp only [ledger, after, Ledger.push, Clock.pending_after, Multiset.add_cons,
    Multiset.filter_cons_of_pos, h]

@[simp] theorem ledger_push_wake (w : Waiter) : (s.push (.wake w)).ledger hand = s.ledger hand := by
  have h : (Event.wake w).job?.isSome = false := rfl
  simp only [ledger, push, Clock.pending_push, Multiset.add_cons,
    Multiset.filter_cons_of_neg, h, Bool.false_eq_true, not_false_eq_true]

@[simp] theorem ledger_after_rested (delay : Nat) : (s.after delay .rested).ledger hand = s.ledger hand := by
  have h : Event.rested.job?.isSome = false := rfl
  simp only [ledger, after, Clock.pending_after, Multiset.add_cons,
    Multiset.filter_cons_of_neg, h, Bool.false_eq_true, not_false_eq_true]

@[simp] theorem ledger_wakeAll (ws : List Waiter) : (s.wakeAll ws).ledger hand = s.ledger hand := by
  unfold wakeAll
  induction ws generalizing s with
  | nil => rfl
  | cons w r ih => rw [List.foldl_cons, ih, ledger_push_wake]

/-- An event in hand is due as long as it happens. -/
theorem ledger_of_pending {s : Service} {e : Event} {c : Clock} (h : s.clock.pending = e ::ₘ c.pending) :
    ledger { s with clock := c } {e} = s.ledger 0 := by
  simp only [ledger, h, Multiset.zero_add, Multiset.singleton_add]

/-! ## What the ledger leaves out -/

theorem ledger_awaitBatch (n : Nat) (w : Waiter) : (s.awaitBatch n w).2.ledger hand = s.ledger hand := by
  unfold awaitBatch
  split
  · rfl
  · rename_i b hb
    split
    · rfl
    · have hset : (s.batches.set n { b with waiters := b.waiters ++ [w] }).map Batch.bare
          = s.batches.map Batch.bare := by
        rw [List.map_set]
        exact set_eq_self (by simp [hb, Batch.bare])
      simp only [ledger, hset]

@[simp] theorem ledger_received (o : Option Outcome) : ledger { s with received := o } hand = s.ledger hand := rfl

@[simp] theorem ledger_waits (ws : List Wait) : ledger { s with waits := ws } hand = s.ledger hand := rfl

@[simp] theorem ledger_fault (time : Nat) :
    ledger { s with notices := s.notices ++ [.fault time] } hand = s.ledger hand := by
  simp [ledger, Notice.heard?]

/-! ## Jobs, batches and the display -/

/-- A rendering changes what is seen and what the program took, and nothing else. -/
theorem render_aside (d : Diagnostic) (segments : List Segment) : ∃ view renderings,
    (s.render d segments).1 = { s with session := { s.session with view }, renderings } := by
  unfold render
  split
  · unfold putView
    dsimp only
    split
    · exact ⟨_, s.renderings, rfl⟩
    · exact ⟨_, _, rfl⟩
  · exact ⟨s.session.view, s.renderings, rfl⟩

theorem ledger_render (d : Diagnostic) (segments : List Segment) :
    (s.render d segments).1.ledger hand
      = { s.ledger hand with toDisplay := (s.ledger hand).render d segments } := by
  cases hview : View.ofDiagnostic d segments s.config.title <;> cases h : s.onRender <;>
    simp [render, putView, ledger, Display.render, hview, h, Except.toOption]

theorem ledger_settle (n : Nat) :
    (s.settle n).ledger hand
      = { s.ledger hand with batches := (s.ledger hand).batches.modify n Batch.settled } := by
  have bare_settled (b : Batch) : b.settled.bare = b.bare.settled := by
    unfold Batch.settled Batch.bare
    split <;> rfl
  have hmap : (s.ledger hand).batches.modify n Batch.settled
      = (s.batches.modify n Batch.settled).map Batch.bare := (map_modify _ bare_settled n).symm
  rw [hmap]
  unfold settle
  split
  · rename_i hb
    rw [List.modify_eq_self (by simpa using hb)]
    rfl
  · rename_i b hb
    rw [← set_eq_modify hb]
    split
    · rename_i h
      rw [ledger_wakeAll]
      simp only [ledger, List.map_set, Batch.settled, h, if_true, Batch.bare]
    · rename_i h
      simp only [Batch.settled, h, if_false, Bool.false_eq_true]
      rw [set_eq_self hb]
      rfl

theorem ledger_land (batch index : Nat) (o : Outcome) :
    (s.land batch index o).1.ledger hand
      = { s.ledger hand with toDisplay := (s.ledger hand).land batch index o } := by
  have hget : (s.ledger hand).batches[batch]? = (s.batches[batch]?).map Batch.bare := List.getElem?_map ..
  rw [Display.land, hget]
  cases hb : s.batches[batch]? with
  | none => simp only [land, hb, Option.map_none]
  | some b =>
    have hset : ((s.batches.set batch (b.put index o)).map Batch.bare).modify batch Batch.settled
        = (s.batches.map Batch.bare).set batch (b.bare.put index o).settled := by
      rw [List.map_set, set_modify]
      rfl
    simp only [land, hb, Option.map_some]
    by_cases hcur : s.isCurrent b.shown = true
    · have hcur' : isCurrent { s with batches := s.batches.set batch (b.put index o) } b.shown = true := hcur
      have hshows : (s.ledger hand).shows b.bare.shown = true := hcur
      rw [if_pos hshows]
      erw [if_pos hcur']
      rw [ledger_settle, ledger_render]
      simp only [ledger, Display.present, Display.render, hset.symm]
      rfl
    · have hcur' : ¬ isCurrent { s with batches := s.batches.set batch (b.put index o) } b.shown = true := hcur
      have hshows : ¬ (s.ledger hand).shows b.bare.shown = true := hcur
      rw [if_neg hshows]
      erw [if_neg hcur']
      rw [ledger_settle]
      simp only [ledger, hset.symm]
      rfl

theorem ledger_tell (l : Listener) (o : Outcome) : (s.tell l o).1.ledger hand = (s.ledger hand).tell l o := by
  cases l with
  | nobody => simp [tell, Ledger.tell, Display.tell, Listener.hears]
  | watcher n raises => simp [tell, Ledger.tell, Display.tell, ledger, Notice.heard?, Listener.hears]
  | program => simp [tell, Ledger.tell, Display.tell, Listener.hears]
  | slot b i =>
    rw [tell, ledger_land]
    simp [Ledger.tell, Display.tell, Listener.hears]

theorem ledger_complete (job : Nat) (o : Outcome) :
    (s.complete job o).1.ledger hand = (s.ledger hand).complete job o := by
  unfold complete Ledger.complete
  change _ = match s.jobs[job]? with
    | none => _
    | some j => _
  cases s.jobs[job]? with
  | none => rfl
  | some j =>
    dsimp only
    split
    · rfl
    · exact ledger_tell ..

theorem ledger_completeAlone (job : Nat) (o : Outcome) :
    (s.completeAlone job o).ledger hand = (s.ledger hand).complete job o := by
  rw [← ledger_complete]
  unfold completeAlone
  split <;> rename_i h <;> simp [h]

end Service

end Legible
