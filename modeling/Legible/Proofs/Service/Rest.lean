import Legible.Proofs.Service.Handling
import Mathlib.Algebra.BigOperators.Group.Multiset.Basic
import Mathlib.Algebra.Order.Ring.Nat
/-!
# The clock comes to rest

Left to itself, a service has only finitely much to do: `work` counts what each event, each task, each waiter
and each diagnostic that is yet to be shown can still cause, and every event makes it less. Completing a job
only moves what is counted (`weigh_complete`), whatever events, jobs and waiters count for.
-/

namespace Legible

/-- What events, jobs and waiters count for. A waiter counts for as much as its waking, and a job that the program
waits for counts for the waking of the program as long as it has no outcome. -/
structure Weights where
  event : Event → Nat
  job : Job → Nat
  waiter : Waiter → Nat
  wake : ∀ w, event (.wake w) = waiter w
  fix : ∀ (j : Job) (o : Outcome), j.done = false →
    job { j with toPromise := j.fix o } + (if j.listener = .program then waiter .program else 0) = job j

/-- What an event can cause. The end of a sleep causes one more event. -/
def Event.work : Event → Nat
  | .rested => 2
  | _ => 1

/-- What a task can cause. -/
def Task.work : Task → Nat
  | .ready => 3
  | .running _ => 2
  | .finished _ => 1
  | _ => 0

/-- What a job can cause: the steps of its task, and the waking of the program. -/
def Job.work (j : Job) : Nat := j.task.work + if !j.done && j.listener = .program then 1 else 0

/-- What events, jobs and waiters can cause. -/
def Weights.work : Weights where
  event := Event.work
  job := Job.work
  waiter _ := 1
  wake _ := rfl
  fix j o hd := by simp [Job.work, hd]

/-- What a task that shows a diagnostic can cause: for each segment a job and its two events, and the waking
of the task. -/
def Wait.work : Wait → Nat
  | .ready shown => 5 * (Service.codePlaces (Message.segments shown.diagnostic.message)).length + 1
  | _ => 0

namespace Service

section Sums

variable {α : Type} {l : List α} {a : α} {n : Nat}

theorem sum_modify (h : l[n]? = some a) (f : α → α) (w : α → Nat) :
    ((l.modify n f).map w).sum + w a = (l.map w).sum + w (f a) := by
  induction l generalizing n with
  | nil => cases h
  | cons x r ih =>
    cases n with
    | zero =>
      cases h
      simp only [List.modify_zero_cons, List.map_cons, List.sum_cons]
      omega
    | succ n =>
      have := ih h
      simp only [List.modify_succ_cons, List.map_cons, List.sum_cons]
      omega

theorem sum_set (h : l[n]? = some a) (b : α) (w : α → Nat) :
    ((l.set n b).map w).sum + w a = (l.map w).sum + w b := by
  rw [set_eq_modify h fun _ => b]
  exact sum_modify h _ w

end Sums

variable (w : Weights) (s : Service)

/-- What all that is on its way counts for. -/
def weigh (s : Service) : Nat :=
  (s.clock.pending.map w.event).sum + (s.jobs.map w.job).sum
    + (s.batches.map fun b => (b.waiters.map w.waiter).sum).sum

/-- What is left to do. -/
def work (s : Service) : Nat := s.weigh .work + (s.waits.map Wait.work).sum

@[simp] theorem weigh_push (e : Event) : (s.push e).weigh w = s.weigh w + w.event e := by
  simp only [weigh, push, Clock.pending_push, Multiset.map_cons, Multiset.sum_cons]
  omega

@[simp] theorem weigh_after (delay : Nat) (e : Event) : (s.after delay e).weigh w = s.weigh w + w.event e := by
  simp only [weigh, after, Clock.pending_after, Multiset.map_cons, Multiset.sum_cons]
  omega

theorem weigh_wakeAll (ws : List Waiter) : (s.wakeAll ws).weigh w = s.weigh w + (ws.map w.waiter).sum := by
  unfold wakeAll
  induction ws generalizing s with
  | nil => rfl
  | cons x r ih =>
    rw [List.foldl_cons, ih, weigh_push, w.wake, List.map_cons, List.sum_cons]
    omega

theorem weigh_modifyJob {j : Job} {n : Nat} (hj : s.jobs[n]? = some j) (f : Job → Job) :
    (s.modifyJob n f).weigh w + w.job j = s.weigh w + w.job (f j) := by
  have h := sum_modify hj f w.job
  simp only [weigh, modifyJob] at h ⊢
  omega

theorem weigh_addJob (j : Job) : (s.addJob j).weigh w = s.weigh w + w.job j := by
  simp only [weigh, addJob, List.map_append, List.map_cons, List.map_nil, List.sum_append, List.sum_cons, List.sum_nil]
  omega

theorem weigh_openBatch {b : Batch} (hb : b.waiters = []) :
    weigh w { s with batches := s.batches ++ [b] } = s.weigh w := by
  simp [weigh, hb]

theorem weigh_awaitBatch_of_waits {n : Nat} {x : Waiter} (h : (s.awaitBatch n x).1 = true) :
    (s.awaitBatch n x).2.weigh w = s.weigh w + w.waiter x := by
  unfold awaitBatch at h ⊢
  split at h
  · cases h
  · rename_i b hb
    split at h
    · cases h
    · rename_i hnone
      have hset := sum_set hb { b with waiters := b.waiters ++ [x] } fun b => (b.waiters.map w.waiter).sum
      simp only [List.map_append, List.map_cons, List.map_nil, List.sum_append, List.sum_cons, List.sum_nil] at hset
      simp only [hnone, Bool.false_eq_true, if_false]
      unfold weigh
      dsimp only
      omega

/-- Who waits for nothing changes nothing. -/
theorem awaitBatch_eq_self {n : Nat} {x : Waiter} (h : (s.awaitBatch n x).1 = false) : (s.awaitBatch n x).2 = s := by
  unfold awaitBatch at h ⊢
  split at h
  · rfl
  · split at h
    · rename_i hsome
      simp only [hsome, if_true]
    · cases h

/-- The event that happens counted until it did. -/
theorem weigh_of_pending {e : Event} {c : Clock} (h : s.clock.pending = e ::ₘ c.pending) :
    s.weigh w = weigh w { s with clock := c } + w.event e := by
  unfold weigh
  rw [h, Multiset.map_cons, Multiset.sum_cons]
  dsimp only
  omega

/-! ## Completing a job -/

theorem weigh_settle (n : Nat) : (s.settle n).weigh w = s.weigh w := by
  unfold settle
  split
  · rfl
  · rename_i b hb
    split
    · -- the waiters leave the batch for the queue
      have h := sum_set hb { b with result := some b.slots, waiters := [] } fun b => (b.waiters.map w.waiter).sum
      rw [weigh_wakeAll]
      simp only [weigh, List.map_nil, List.sum_nil] at h ⊢
      omega
    · rfl

theorem weigh_render (d : Diagnostic) (segments : List Segment) : (s.render d segments).1.weigh w = s.weigh w := by
  obtain ⟨_, _, h⟩ := render_aside s d segments
  rw [h]
  rfl

theorem weigh_land (batch index : Nat) (o : Outcome) : (s.land batch index o).1.weigh w = s.weigh w := by
  cases hb : s.batches[batch]? with
  | none => simp only [land, hb]
  | some b =>
    have hset : weigh w { s with batches := s.batches.set batch (b.put index o) } = s.weigh w := by
      have h := sum_set hb (b.put index o) fun b => (b.waiters.map w.waiter).sum
      simp only [weigh, Batch.put] at h ⊢
      omega
    simp only [land, hb]
    by_cases hcur : isCurrent { s with batches := s.batches.set batch (b.put index o) } b.shown = true
    · erw [if_pos hcur]
      rw [weigh_settle, weigh_render]
      exact hset
    · erw [if_neg hcur]
      rw [weigh_settle]
      exact hset

theorem weigh_tell (l : Listener) (o : Outcome) :
    (s.tell l o).1.weigh w = s.weigh w + if l = .program then w.waiter .program else 0 := by
  cases l with
  | nobody => rfl
  | watcher => rfl
  | program =>
    rw [← w.wake]
    exact weigh_push ..
  | slot b i => exact weigh_land w s b i o

/-- What was counted with a job is counted with the waking of the program from then on. -/
theorem weigh_complete (n : Nat) (o : Outcome) : (s.complete n o).1.weigh w = s.weigh w := by
  unfold complete
  split
  · rfl
  · rename_i j hj
    split
    · rfl
    · rename_i hd
      have h := s.weigh_modifyJob w hj fun j => { j with toPromise := j.fix o }
      have hfix := w.fix j o (by simpa using hd)
      dsimp only
      rw [weigh_tell]
      dsimp only at h hfix ⊢
      omega

@[simp] theorem work_push (e : Event) : (s.push e).work = s.work + e.work := by
  rw [work, weigh_push, work]
  exact Nat.add_right_comm ..

@[simp] theorem work_after (delay : Nat) (e : Event) : (s.after delay e).work = s.work + e.work := by
  rw [work, weigh_after, work]
  exact Nat.add_right_comm ..

theorem work_modifyJob {j : Job} {n : Nat} (hj : s.jobs[n]? = some j) (f : Job → Job) :
    (s.modifyJob n f).work + j.work = s.work + (f j).work := by
  have h : (s.modifyJob n f).weigh .work + j.work = s.weigh .work + (f j).work := s.weigh_modifyJob .work hj f
  have hwaits : (s.modifyJob n f).waits = s.waits := rfl
  rw [work, work, hwaits]
  omega

theorem work_addJob (j : Job) : (s.addJob j).work = s.work + j.work := by
  rw [work, weigh_addJob, work]
  exact Nat.add_right_comm ..

theorem work_complete (n : Nat) (o : Outcome) : (s.complete n o).1.work = s.work := by
  rw [work, weigh_complete, (tells_complete s n o).setting.waits, work]

/-! ## Jobs on their way -/

variable {s} {n : Nat} {j : Job}

/-- Another task of a job with as much to do, less to do, or more. -/
theorem work_setTask (hj : s.jobs[n]? = some j) (t : Task) :
    (s.modifyJob n fun j => { j with task := t }).work + j.task.work = s.work + t.work := by
  have h := s.work_modifyJob hj fun j => { j with task := t }
  simp only [Job.work] at h
  have hdone : (Promise.done { j with task := t }.toPromise) = j.done := rfl
  omega

theorem work_endTask_le (s : Service) (n : Nat) (e : Ending) : (s.endTask n e).work ≤ s.work := by
  cases hj : s.jobs[n]? with
  | none =>
    have hsame : s.endTask n e = s := by
      rw [endTask, modifyJob, List.modify_eq_self (by simpa using hj)]
    rw [hsame]
  | some j =>
    have h := work_setTask hj (.ended e)
    have hw : (Task.ended e).work = 0 := rfl
    rw [endTask]
    omega

theorem work_completeInTask_le (s : Service) (n : Nat) (o : Outcome) : (s.completeInTask n o).work ≤ s.work := by
  have h := s.work_complete n o
  unfold completeInTask
  split <;> rename_i hc <;> rw [hc] at h <;> rw [← h] <;> exact work_endTask_le ..

theorem work_completeAlone (s : Service) (n : Nat) (o : Outcome) : (s.completeAlone n o).work = s.work := by
  have h := s.work_complete n o
  unfold completeAlone
  split <;> rename_i hc <;> rw [hc] at h <;> exact h

theorem work_finishTask_le (s : Service) (n : Nat) (j : Job) (r : Reply) : (s.finishTask n j r).work ≤ s.work := by
  unfold finishTask
  split
  · exact work_endTask_le ..
  · have hconclude : (s.conclude j.content (resultOf j.argv r)).2.work = s.work := by
      unfold conclude
      dsimp only
      split <;> rfl
    rw [← hconclude]
    exact work_completeInTask_le ..

theorem work_resume_le (s : Service) (n : Nat) : (s.resume n).work ≤ s.work := by
  unfold resume
  split
  · exact Nat.le_refl _
  · rename_i j hj
    split
    · rename_i ht
      have hrun : (s.run ⟨j.argv, j.wrapped, none⟩).2.work = s.work := rfl
      have hjobs : (s.run ⟨j.argv, j.wrapped, none⟩).2.jobs[n]? = some j := hj
      generalize s.run ⟨j.argv, j.wrapped, none⟩ = p at hrun hjobs
      obtain ⟨reply, t⟩ := p
      dsimp only at hrun hjobs ⊢
      rw [← hrun]
      split
      · exact work_completeInTask_le (t.warnStart _ _) ..
      · split
        · exact work_finishTask_le ..
        · -- the run takes time: one event more, and a step less for the task
          have h := work_setTask hjobs (.running reply)
          have hw : (Task.running reply).work = 2 ∧ j.task.work = 3 ∧ (Event.finish n).work = 1 :=
            ⟨rfl, by rw [ht]; rfl, rfl⟩
          rw [work_after]
          omega
    · exact work_finishTask_le ..
    · exact work_endTask_le s n .cancelled
    · exact Nat.le_refl _

theorem work_finish_le (s : Service) (n : Nat) : (s.finish n).work ≤ s.work := by
  unfold finish
  split
  · rename_i p content l wrapped argv deadline reply hj
    have h := work_setTask hj (.finished reply)
    have hw : (Task.running reply).work = 2 ∧ (Task.finished reply).work = 1 ∧ (Event.resume n).work = 1 :=
      ⟨rfl, rfl, rfl⟩
    rw [work_push]
    dsimp only at h
    omega
  · exact Nat.le_refl _

theorem work_stop_le (hj : s.jobs[n]? = some j) : (s.stop n j.task).work ≤ s.work := by
  have stopping (started : Bool) :
      (s.modifyJob n fun j => { j with task := .stopping started }).work + j.task.work = s.work := by
    exact work_setTask hj (.stopping started)
  unfold stop
  split
  · exact (stopping false).le.trans' (Nat.le_add_right _ _)
  · rename_i r ht
    have h := stopping true
    have hw : j.task.work = 2 ∧ (Event.resume n).work = 1 := ⟨by rw [ht]; rfl, rfl⟩
    rw [work_push]
    omega
  · exact (stopping true).le.trans' (Nat.le_add_right _ _)
  · exact Nat.le_refl _

theorem work_expire_le (s : Service) (n : Nat) : (s.expire n).work ≤ s.work := by
  unfold expire
  split
  · exact Nat.le_refl _
  · rename_i j hj
    split
    · exact Nat.le_refl _
    · rw [work_completeAlone]
      exact work_stop_le hj

/-! ## Showing a diagnostic -/

/-- A request changes the jobs and what is to happen; the locator may remember where the formatter is. -/
theorem request_aside (s : Service) (content : Text) (l : Listener) : ∃ locator jobs clock,
    (s.request content l).2 = { s with locator, jobs, clock } := by
  have hloc : s.locate.2 = { s with locator := s.locate.2.locator } := rfl
  unfold request
  dsimp only
  split
  · exact ⟨s.locator, _, _, rfl⟩
  · split <;> rename_i t hl <;> rw [hl] at hloc <;> dsimp only at hloc
    · exact ⟨t.locator, _, _, by rw [hloc]; rfl⟩
    · split
      · exact ⟨t.locator, _, _, hloc⟩
      · exact ⟨t.locator, _, _, by rw [hloc]; rfl⟩

theorem requestSlots_aside (s : Service) (batch : Nat) (segments : List Segment) (places : List Nat) :
    ∃ locator jobs clock, (s.requestSlots batch segments places).2 = { s with locator, jobs, clock } := by
  induction places generalizing s with
  | nil => exact ⟨s.locator, s.jobs, s.clock, rfl⟩
  | cons i r ih =>
    rw [requestSlots]
    split
    · exact ih s
    · rename_i seg _
      obtain ⟨locator, jobs, clock, hreq⟩ := request_aside s seg.content (.slot batch i)
      split <;> rename_i t h <;> rw [h] at hreq <;> dsimp only at hreq
      · exact ⟨locator, jobs, clock, hreq⟩
      · obtain ⟨locator', jobs', clock', hr⟩ := ih t
        exact ⟨locator', jobs', clock', by rw [hr, hreq]⟩

theorem startBatch_aside (s : Service) (segments : List Segment) (shown : Shown) : ∃ locator jobs clock b,
    (s.startBatch segments shown).2 = { s with locator, jobs, clock, batches := s.batches ++ [b] } := by
  unfold startBatch
  dsimp only
  generalize ({ shown, slots := segments, remaining := _, result := _ } : Batch) = b
  obtain ⟨locator, jobs, clock, h⟩ := requestSlots_aside { s with batches := s.batches ++ [b] } s.batches.length segments
    (codePlaces segments)
  exact ⟨locator, jobs, clock, b, h⟩

theorem waits_awaitBatch (s : Service) (n : Nat) (w : Waiter) : (s.awaitBatch n w).2.waits = s.waits := by
  unfold awaitBatch
  split
  · rfl
  · split <;> rfl

/-- A segment that is asked for causes at most the steps of its task and two events. -/
theorem work_request_le (s : Service) (content : Text) (b i : Nat) :
    (s.request content (.slot b i)).2.work ≤ s.work + 5 := by
  have hidle : Job.work { content, listener := .slot b i } = 0 := rfl
  have hdeliver (n : Nat) (o : Outcome) : (Event.deliver n o).work = 1 := rfl
  have hloc : s.locate.2.work = s.work := rfl
  unfold request
  dsimp only
  split
  · rw [work_after, work_addJob, hidle, hdeliver]
    omega
  · split
    · rename_i t hl
      rw [hl] at hloc
      rw [work_push, work_addJob, hidle, hdeliver]
      dsimp only at hloc
      omega
    · rename_i c t hl
      rw [hl] at hloc
      dsimp only at hloc
      split
      · exact hloc.le.trans (Nat.le_add_right _ _)
      · rw [startJob, work_after, work_push, work_addJob]
        simp only [Job.work, Task.work, Event.work, reduceCtorEq, decide_false, Bool.and_false]
        simp only [if_false]
        omega

theorem work_requestSlots_le (s : Service) (batch : Nat) (segments : List Segment) (places : List Nat) :
    (s.requestSlots batch segments places).2.work ≤ s.work + 5 * places.length := by
  induction places generalizing s with
  | nil => exact Nat.le_refl _
  | cons i r ih =>
    rw [requestSlots, List.length_cons]
    split
    · have := ih s
      omega
    · rename_i seg _
      have hreq := work_request_le s seg.content batch i
      split
      · rename_i t h
        rw [h] at hreq
        dsimp only at hreq ⊢
        omega
      · rename_i t h
        rw [h] at hreq
        have := ih t
        dsimp only at hreq ⊢
        omega

theorem work_startBatch_le (s : Service) (segments : List Segment) (shown : Shown) :
    (s.startBatch segments shown).2.work ≤ s.work + 5 * (codePlaces segments).length := by
  unfold startBatch
  dsimp only
  generalize hb : ({ shown, slots := segments, remaining := _, result := _ } : Batch) = b
  have hwaiters : b.waiters = [] := by
    rw [← hb]
  have hopen : work { s with batches := s.batches ++ [b] } = s.work := by
    rw [work, weigh_openBatch _ _ hwaiters, work]
  rw [← hopen]
  exact work_requestSlots_le ..

theorem work_display_le (s : Service) (shown : Shown) (format : Option Bool) :
    (s.display shown format).1.work
      ≤ s.work + 5 * (codePlaces (Message.segments shown.diagnostic.message)).length := by
  by_cases hne : shown.diagnostic.message = []
  · rw [display_of_empty hne]
    exact Nat.le_add_right _ _
  have hpresent : (s.present shown).work = s.work := by
    have hwaits : (s.present shown).waits = s.waits := (tells_render _ _ _).setting.waits
    rw [work, hwaits, present, weigh_render]
    rfl
  rw [← hpresent]
  rcases display_cases hne s format with h | ⟨u, p, rfl, h⟩
  · rw [h]
    exact Nat.le_add_right _ _
  · rw [h]
    exact work_startBatch_le ..

theorem work_awaitBatch_le (s : Service) (n : Nat) (x : Waiter) : (s.awaitBatch n x).2.work ≤ s.work + 1 := by
  cases h : (s.awaitBatch n x).1 with
  | true =>
    rw [work, weigh_awaitBatch_of_waits _ _ h, waits_awaitBatch, work, Nat.add_right_comm]
    exact Nat.le_refl _
  | false => exact (s.awaitBatch_eq_self h).symm ▸ Nat.le_add_right _ _

theorem work_displayAndAwait_le (s : Service) (shown : Shown) (w : Waiter) :
    (s.displayAndAwait shown w).2.work
      ≤ s.work + 5 * (codePlaces (Message.segments shown.diagnostic.message)).length + 1 := by
  have hshow := work_display_le s shown (some true)
  unfold displayAndAwait
  split
  · rename_i t f h
    rw [h] at hshow
    dsimp only at hshow ⊢
    omega
  · rename_i t view h
    rw [h] at hshow
    dsimp only at hshow ⊢
    split
    · exact hshow.trans (Nat.le_add_right _ _)
    · rename_i n _
      have hwait := work_awaitBatch_le t n w
      split <;> rename_i u hu <;> rw [hu] at hwait <;> dsimp only at hwait ⊢ <;> omega

theorem waits_display (s : Service) (shown : Shown) (format : Option Bool) :
    (s.display shown format).1.waits = s.waits := by
  by_cases hne : shown.diagnostic.message = []
  · rw [display_of_empty hne]
  have hpresent : (s.present shown).waits = s.waits := by
    obtain ⟨_, _, haside, _⟩ := present_aside s shown
    rw [haside]
  rcases display_cases hne s format with h | ⟨u, p, rfl, h⟩
  · rw [h]
    exact hpresent
  · obtain ⟨_, _, _, _, hu⟩ := startBatch_aside (s.present shown) (Message.segments shown.diagnostic.message) shown
    rw [h, hu]
    exact hpresent

theorem waits_displayAndAwait (s : Service) (shown : Shown) (w : Waiter) :
    (s.displayAndAwait shown w).2.waits = s.waits := by
  have hshow := waits_display s shown (some true)
  unfold displayAndAwait
  split <;> rename_i h <;> rw [h] at hshow
  · exact hshow
  · split
    · exact hshow
    · rename_i t _ _ n _
      have ht := waits_awaitBatch t n w
      split <;> rename_i hu <;> rw [hu] at ht <;> exact ht.trans hshow

theorem work_wakeTask_le (s : Service) (n : Nat) : (s.wakeTask n).work ≤ s.work := by
  have set {t : Service} {w : Wait} (h : t.waits[n]? = some w) (w' : Wait) :
      work { t with waits := t.waits.set n w' } + w.work = t.work + w'.work := by
    have h := sum_set h w' Wait.work
    have hsame : weigh .work { t with waits := t.waits.set n w' } = t.weigh .work := rfl
    rw [work, work, hsame]
    dsimp only
    omega
  unfold wakeTask
  split
  · -- all that the diagnostic causes was counted with the task
    rename_i shown hw
    have hle := work_displayAndAwait_le s shown (.task n)
    have hwaits := waits_displayAndAwait s shown (.task n)
    have hready : (Wait.ready shown).work
        = 5 * (codePlaces (Message.segments shown.diagnostic.message)).length + 1 := rfl
    split <;> rename_i r t h <;> rw [h] at hle hwaits <;> dsimp only at hle hwaits
    · have := set (hwaits ▸ hw) (.ended r)
      have hend : (Wait.ended r).work = 0 := rfl
      omega
    · have := set (hwaits ▸ hw) .waiting
      have hend : Wait.waiting.work = 0 := rfl
      omega
  · rename_i hw
    exact Nat.le_of_add_right_le (set hw (.ended _)).le
  · exact Nat.le_refl _

/-! ## Every event -/

theorem work_handle_lt (s : Service) (e : Event) : (handle s e).work < s.work + e.work := by
  cases e with
  | resume n => exact Nat.lt_succ_of_le (work_resume_le s n)
  | finish n => exact Nat.lt_succ_of_le (work_finish_le s n)
  | expire n => exact Nat.lt_succ_of_le (work_expire_le s n)
  | deliver n o => exact Nat.lt_succ_of_le (work_completeAlone s n o).le
  | rested =>
    rw [handle, work_push]
    exact Nat.lt_succ_self _
  | wake w =>
    cases w with
    | program => exact Nat.lt_succ_self _
    | task n => exact Nat.lt_succ_of_le (work_wakeTask_le s n)

theorem work_step?_lt {t : Service} (h : s.step? = some t) : t.work < s.work := by
  unfold step? at h
  split at h
  · cases h
  · rename_i e c hc
    cases h
    have hlt := work_handle_lt { s with clock := c } e
    have hpend : s.work = work { s with clock := c } + e.work := by
      rw [work, weigh_of_pending _ _ (Clock.pending_of_next? hc), work]
      exact Nat.add_right_comm ..
    exact hpend ▸ hlt

theorem pending_of_step?_eq_none (h : s.step? = none) : s.clock.pending = 0 := by
  unfold step? at h
  split at h
  · rename_i hnext
    exact (Clock.next?_eq_none_iff _).mp hnext
  · cases h

/-- The clock goes on. -/
def Runs : Service → Service → Prop := Relation.ReflTransGen fun s t => s.step? = some t

/-- The clock comes to rest, from any state. -/
theorem exists_runs_to_rest (s : Service) : ∃ t, Runs s t ∧ t.clock.pending = 0 := by
  -- by induction on the work that is left
  induction hw : s.work using Nat.strong_induction_on generalizing s with
  | _ m ih =>
    cases hs : s.step? with
    | none => exact ⟨s, .refl, pending_of_step?_eq_none hs⟩
    | some t =>
      obtain ⟨u, hrun, hrest⟩ := ih _ (hw ▸ work_step?_lt hs) t rfl
      exact ⟨u, hrun.head hs, hrest⟩

theorem Runs.leads {s t : Service} (h : Runs s t) : Leads s t := by
  induction h with
  | refl => exact .refl s
  | tail _ hstep ih =>
    obtain ⟨e, he⟩ := step_of_step? hstep
    exact ih.trans ⟨_, .single he⟩

end Service

end Legible
