import Legible.Proofs.Service.Effect
/-!
# Jobs on their way

A job keeps its number, its content and its listener; all that an act changes are its task and, once, its
promise (`Turn`). `Sound` is what holds of the jobs at any time: above all, a job without an outcome has an
event that will complete it, so that no request is forgotten.
-/

namespace Legible

/-- The event completes a job, unless that has its outcome already. -/
def Event.Completes (n : Nat) : Event → Prop
  | .expire m | .deliver m _ => m = n
  | _ => False

/-- What a watcher was told by a job. -/
def Job.heard (j : Job) : List (Nat × Outcome) := j.told.flatMap j.listener.hears

/-- A job that is asked for has told nothing, and an event will complete it. -/
theorem Ledger.Asks.new {cached : Option Text} {n : Nat} {content : Text} {l : Listener} {j : Job} {es : Multiset Event}
    (h : Ledger.Asks cached n content l j es) : j.content = content ∧ j.listener = l ∧ j.outcome = none ∧ j.told = [] ∧
      j.task.reply? = none ∧ (∃ e ∈ es, e.Completes n) ∧ ∀ e ∈ es, e.job? = some n := by
  cases h with
  | hit | missing =>
    refine ⟨rfl, rfl, rfl, rfl, rfl, ⟨_, Multiset.mem_singleton_self _, rfl⟩, ?_⟩
    intro e he
    rw [Multiset.mem_singleton.mp he]
    rfl
  | started =>
    refine ⟨rfl, rfl, rfl, rfl, rfl, ⟨.expire n, Multiset.mem_cons_self _ _, rfl⟩, ?_⟩
    intro e he
    rcases Multiset.mem_cons.mp he with rfl | he
    · rfl
    · rw [Multiset.mem_singleton.mp he]
      rfl

namespace Service

open Ledger

variable {a : Act} {c₀ c d : Ledger}

/-- What an act can make of a job. -/
inductive Turn (a : Act) (c : Ledger) (n : Nat) (j : Job) : Job → Prop
  | keep : Turn a c n j j
  | task {t : Task} : a.job? = some n → j.task ≠ .none → (∀ r, t.reply? = some r → c.Replied j r) →
      Turn a c n j { j with task := t }
  | fix {o : Outcome} : a.job? = some n → j.done = false → Reason a c n j o →
      Turn a c n j { j with toPromise := j.fix o }

/-- An effect adds a job, or changes one. -/
theorem Effect.jobs (h : Effect a c₀ c d) :
    (∃ content l j es, a.job? = none ∧ Asks (c₀.cache.get? content) c.jobs.length content l j es ∧
      (∀ b i, l = .slot b i → c₀.batches.length ≤ b ∧ b < c.batches.length) ∧ d = c.ask j es) ∨
    ∃ n f, d.jobs = c.jobs.modify n f ∧ ∀ j, c.jobs[n]? = some j → Turn a c n j (f j) := by
  have same (hd : d.jobs = c.jobs) :
      ∃ n f, d.jobs = c.jobs.modify n f ∧ ∀ j, c.jobs[n]? = some j → Turn a c n j (f j) :=
    ⟨0, id, by rw [hd, List.modify_id], fun _ _ => .keep⟩
  cases h with
  | ask ha hask hl => exact .inl ⟨_, _, _, _, ha, hask, hl, rfl⟩
  | @task n j t ha hj ht hr =>
    refine .inr ⟨n, _, rfl, ?_⟩
    intro j' hj'
    cases hj.symm.trans hj'
    exact .task ha ht hr
  | @complete n j o ha hj hd hr =>
    refine .inr ⟨n, _, jobs_complete c n o, ?_⟩
    intro j' hj'
    cases hj.symm.trans hj'
    rw [Job.completed, hd]
    exact .fix ha hd hr
  | batch | display | close | store | clear | run | push => exact .inr (same rfl)

/-- Every job is still there after an effect. -/
theorem Effect.turn (h : Effect a c₀ c d) {n : Nat} {j : Job} (hj : c.jobs[n]? = some j) :
    ∃ j', d.jobs[n]? = some j' ∧ Turn a c n j j' := by
  obtain ⟨hn, _⟩ := List.getElem?_eq_some_iff.mp hj
  rcases h.jobs with ⟨_, _, _, _, _, _, _, rfl⟩ | ⟨m, f, hd, hf⟩
  · exact ⟨j, by simpa [Ledger.ask, List.getElem?_append_left hn] using hj, .keep⟩
  · rw [hd, List.getElem?_modify, hj]
    by_cases hm : m = n
    · subst hm
      exact ⟨f j, by simp, hf j hj⟩
    · exact ⟨j, by simp [hm], .keep⟩

/-- Every job after an effect was there before, or is asked for in it. -/
theorem Effect.turned (h : Effect a c₀ c d) {n : Nat} {j' : Job} (hj' : d.jobs[n]? = some j') :
    (∃ j, c.jobs[n]? = some j ∧ Turn a c n j j') ∨
    ∃ content l es, a.job? = none ∧ n = c.jobs.length ∧ Asks (c₀.cache.get? content) n content l j' es ∧
      (∀ b i, l = .slot b i → c₀.batches.length ≤ b ∧ b < c.batches.length) ∧ d = c.ask j' es := by
  rcases Nat.lt_or_ge n c.jobs.length with hn | hn
  · have hj : c.jobs[n]? = some c.jobs[n] := List.getElem?_eq_getElem hn
    obtain ⟨j'', hj'', ht⟩ := h.turn hj
    cases hj'.symm.trans hj''
    exact .inl ⟨_, hj, ht⟩
  · rcases h.jobs with ⟨content, l, j, es, ha, hask, hl, rfl⟩ | ⟨m, f, hd, _⟩
    · have hlast : n = c.jobs.length ∧ j = j' := by
        obtain ⟨hlt, hget⟩ := List.getElem?_eq_some_iff.mp hj'
        simp only [Ledger.ask, List.length_append, List.length_singleton] at hlt
        have : n = c.jobs.length := by omega
        subst this
        exact ⟨rfl, by simpa [Ledger.ask] using hget⟩
      obtain ⟨rfl, rfl⟩ := hlast
      exact .inr ⟨content, l, es, ha, rfl, hask, hl, rfl⟩
    · rw [hd, List.getElem?_eq_none (by simpa using hn)] at hj'
      cases hj'

/-- Batches stay. -/
theorem Effect.length_batches (h : Effect a c₀ c d) : c.batches.length ≤ d.batches.length := by
  cases h with
  | batch => simp [Display.openBatch]
  | complete => rw [length_batches_complete]
  | _ => exact Nat.le_refl _

/-- Nothing that is due is lost. -/
theorem Effect.due (h : Effect a c₀ c d) : c.due ⊆ d.due := by
  cases h with
  | ask => exact Multiset.subset_of_le (Multiset.le_add_left _ _)
  | push => exact Multiset.subset_cons _ _
  | complete => exact (due_complete ..).symm ▸ Multiset.Subset.refl _
  | _ => exact Multiset.Subset.refl _

/-- What is new among what is due belongs to the job that is asked for, or continues a task. -/
theorem Effect.new_due (h : Effect a c₀ c d) {e : Event} (he : e ∈ d.due) :
    e ∈ c.due ∨ (∃ n, n < c.jobs.length ∧ (e = .resume n ∨ e = .finish n)) ∨
    ∃ content l j es, Asks (c₀.cache.get? content) c.jobs.length content l j es ∧ d = c.ask j es ∧ e ∈ es := by
  cases h with
  | @ask content l j es _ hask _ =>
    rcases Multiset.mem_add.mp he with he | he
    · exact .inr (.inr ⟨content, l, j, es, hask, rfl, he⟩)
    · exact .inl he
  | @push n j e' _ hj he' =>
    rcases Multiset.mem_cons.mp he with rfl | he
    · obtain ⟨hn, _⟩ := List.getElem?_eq_some_iff.mp hj
      exact .inr (.inl ⟨n, hn, he'⟩)
    · exact .inl he
  | complete =>
    rw [due_complete] at he
    exact .inl he
  | _ => exact .inl he

theorem Effect.ran (h : Effect a c₀ c d) {argv : List Text} {stdin : Text} {deadline : Option Nat} {r : Reply}
    (hr : c.Ran argv stdin deadline r) : d.Ran argv stdin deadline r := by
  obtain ⟨k, hk, hf, hs⟩ := hr
  cases h with
  | run r' =>
    obtain ⟨hlt, _⟩ := List.getElem?_eq_some_iff.mp hk
    exact ⟨k, by simpa [List.getElem?_append_left hlt] using hk, hf, hs⟩
  | complete => exact ⟨k, by rwa [runs_complete], by rwa [formatter_complete], hs⟩
  | _ => exact ⟨k, hk, hf, hs⟩

/-! ## What holds of the jobs at any time -/

/-- What holds of the jobs at any time. -/
structure Sound (c : Ledger) : Prop where
  told : ∀ (n : Nat) (j : Job), c.jobs[n]? = some j → j.told = j.outcome.toList
  awaited : ∀ (n : Nat) (j : Job), c.jobs[n]? = some j → j.done = false → ∃ e ∈ c.due, e.Completes n
  known : ∀ e ∈ c.due, ∀ n, e.job? = some n → n < c.jobs.length
  ran : ∀ (n : Nat) (j : Job) (r : Reply), c.jobs[n]? = some j → j.task.reply? = some r → c.Ran j.argv j.wrapped none r
  slot : ∀ (n : Nat) (j : Job) (b i : Nat), c.jobs[n]? = some j → j.listener = .slot b i → b < c.batches.length
  heard : c.heard.Perm (c.jobs.flatMap Job.heard)

theorem Effect.sound (h : Effect a c₀ c d) (hc : Sound c) : Sound d where
  told n j' hj' := by
    rcases h.turned hj' with ⟨j, hj, ht⟩ | ⟨_, _, _, _, _, hask, _⟩
    · cases ht with
      | keep => exact hc.told n _ hj
      | task => exact hc.told n j hj
      | fix _ hd =>
        have hold := hc.told n j hj
        have hnone : j.outcome = none := by simpa [Promise.done] using hd
        simp [Promise.fix, hold, hnone]
    · obtain ⟨_, _, ho, htold, _⟩ := hask.new
      rw [ho, htold]
      rfl
  awaited n j' hj' hd := by
    rcases h.turned hj' with ⟨j, hj, ht⟩ | ⟨_, _, es, _, _, hask, _, rfl⟩
    · have hdone : j.done = false := by
        cases ht with
        | keep => exact hd
        | task => exact hd
        | fix => cases hd
      -- an effect takes nothing from what is due; the event that happens is in hand until the act is over
      obtain ⟨e, he, hce⟩ := hc.awaited n j hj hdone
      exact ⟨e, h.due he, hce⟩
    · obtain ⟨_, _, _, _, _, ⟨e, he, hce⟩, _⟩ := hask.new
      exact ⟨e, Multiset.mem_add.mpr (.inl he), hce⟩
  known e he n hn := by
    have hlen : c.jobs.length ≤ d.jobs.length := by
      rcases h.jobs with ⟨_, _, _, _, _, _, _, rfl⟩ | ⟨_, _, hd, _⟩
      · simp [Ledger.ask]
      · simp [hd]
    rcases h.new_due he with he | ⟨m, hm, rfl | rfl⟩ | ⟨_, _, _, es, hask, rfl, hes⟩
    · exact Nat.lt_of_lt_of_le (hc.known e he n hn) hlen
    · cases hn
      exact Nat.lt_of_lt_of_le hm hlen
    · cases hn
      exact Nat.lt_of_lt_of_le hm hlen
    · obtain ⟨_, _, _, _, _, _, hjob⟩ := hask.new
      cases (hjob e hes).symm.trans hn
      simp [Ledger.ask]
  ran n j' r hj' hr := by
    rcases h.turned hj' with ⟨j, hj, ht⟩ | ⟨_, _, _, _, _, hask, _⟩
    · cases ht with
      | keep => exact h.ran (hc.ran n _ r hj hr)
      | task _ _ hrep =>
        rcases hrep r hr with hold | ⟨_, hran⟩
        · exact h.ran (hc.ran n j r hj hold)
        · exact h.ran hran
      | fix => exact h.ran (hc.ran n j r hj hr)
    · obtain ⟨_, _, _, _, hnone, _⟩ := hask.new
      rw [hnone] at hr
      cases hr
  slot n j' b i hj' hl := by
    rcases h.turned hj' with ⟨j, hj, ht⟩ | ⟨_, l, _, _, _, hask, hslot, rfl⟩
    · have hlis : j.listener = .slot b i := by cases ht <;> exact hl
      exact Nat.lt_of_lt_of_le (hc.slot n j b i hj hlis) h.length_batches
    · obtain ⟨_, hlis, _⟩ := hask.new
      exact (hslot b i (hlis ▸ hl)).2
  heard := by
    cases h with
    | ask _ hask =>
      obtain ⟨_, _, _, htold, _⟩ := hask.new
      simpa [Ledger.ask, Job.heard, htold] using hc.heard
    | @task n j t _ hj =>
      have h := flatMap_modify_perm (g := Job.heard) (f := fun j => { j with task := t }) hj (List.append_nil _).symm
      exact hc.heard.trans (by simpa [Ledger.modifyJob] using h.symm)
    | @complete n j o _ hj hd =>
      -- jobs tell their watchers in the order of events and not of jobs, hence a permutation
      have hext : Job.heard { j with toPromise := j.fix o } = j.heard ++ j.listener.hears o := by
        simp [Job.heard, Promise.fix]
      have h := flatMap_modify_perm (g := Job.heard) (f := fun j => { j with toPromise := j.fix o }) hj hext
      rw [complete_of_undone hj hd]
      exact (hc.heard.append_right _).trans h.symm
    | _ => exact hc.heard

/-! ## Acts and courses -/

theorem Effects.sound (h : Effects a c₀ c d) (hc : Sound c) : Sound d := by
  induction h with
  | refl => exact hc
  | tail _ heff ih => exact heff.sound ih

variable {s t : Service}

/-- An event that completes a job has done so when it is over. -/
theorem done_of_completes {e : Event} {n : Nat} {j : Job} (h : e.Completes n)
    (hj : (handle s e).jobs[n]? = some j) : j.done = true := by
  have completed (s : Service) (o : Outcome) (hj : (s.completeAlone n o).jobs[n]? = some j) : j.done = true := by
    have hjobs : (s.completeAlone n o).jobs = s.jobs.modify n (·.completed o) :=
      (congrArg Ledger.jobs (ledger_completeAlone s 0 n o)).trans (jobs_complete ..)
    rw [hjobs, List.getElem?_modify_eq] at hj
    obtain ⟨i, _, rfl⟩ := Option.map_eq_some_iff.mp hj
    unfold Job.completed
    split
    · assumption
    · rfl
  cases e with
  | deliver m o =>
    cases h
    exact completed s o hj
  | expire m =>
    cases h
    simp only [handle, expire] at hj
    split at hj
    · rename_i hnone
      rw [hnone] at hj
      cases hj
    · rename_i i hi
      split at hj
      · rename_i hd
        cases hi.symm.trans hj
        exact hd
      · exact completed _ _ hj
  | _ => exact h.elim

/-- What is due is due with an event in hand, too. -/
theorem due_hand {hand : Multiset Event} {e : Event} (he : e ∈ (t.ledger 0).due) : e ∈ (t.ledger hand).due := by
  simp only [ledger, Multiset.mem_filter, Multiset.mem_add] at he ⊢
  exact ⟨.inr (he.1.resolve_left (Multiset.notMem_zero _)), he.2⟩

/-- An event that completes a job was due before it happened. -/
theorem Step.due_of_completes (h : Step s a t) {n : Nat} (e : Event) (ha : a = .event e) (he : e.Completes n) :
    e ∈ (s.ledger 0).due := by
  subst ha
  cases h with
  | event hp =>
    simp only [ledger, Multiset.mem_filter, hp]
    refine ⟨Multiset.mem_add.mpr (.inr (Multiset.mem_cons_self _ _)), ?_⟩
    cases e with
    | expire | deliver => rfl
    | _ => exact he.elim

theorem Step.sound (h : Step s a t) (hs : Sound (s.ledger 0)) : Sound (t.ledger 0) := by
  have ht := h.effects.sound hs
  refine ⟨ht.told, ?_, fun e he => ht.known e (due_hand he), ht.ran, ht.slot, ht.heard⟩
  intro n j hj hd
  obtain ⟨e, he, hce⟩ := ht.awaited n j hj hd
  simp only [ledger, Multiset.mem_filter, Multiset.mem_add] at he ⊢
  rcases he with ⟨hhand | hpend, hjob⟩
  · -- the event has just happened, and its job is done
    cases h with
    | move => exact absurd hhand (Multiset.notMem_zero _)
    | event =>
      cases Multiset.mem_singleton.mp hhand
      rw [done_of_completes hce hj] at hd
      cases hd
  · exact ⟨e, ⟨.inr hpend, hjob⟩, hce⟩

theorem IsFresh.sound (h : s.IsFresh) : Sound (s.ledger 0) := by
  constructor <;> simp [ledger, h.jobs, h.pending, h.notices]

theorem Course.sound {as : List Act} (h : Course s as t) (hs : Sound (s.ledger 0)) : Sound (t.ledger 0) :=
  h.invariant (fun s => Sound (s.ledger 0)) hs fun _ _ _ hv hstep => hstep.sound hv

/-! ## When nothing is left to do -/

/-- An event that would change nothing: the deadline of a job that is done, or the end of a formatter
that was stopped. -/
def IsOff (s : Service) : Event → Prop
  | .expire n => ∃ j, s.jobs[n]? = some j ∧ j.done = true
  | .finish n => ∃ j, s.jobs[n]? = some j ∧ ∀ r, j.task ≠ .running r
  | _ => False

/-- Nothing is left to do. -/
def IsIdle (s : Service) : Prop := ∀ e ∈ s.clock.pending, s.IsOff e

/-- When nothing is left to do, every job is done. -/
theorem Sound.done_of_isIdle (h : Sound (s.ledger 0)) (hidle : s.IsIdle) {n : Nat} {j : Job}
    (hj : s.jobs[n]? = some j) : j.done = true := by
  by_contra hd
  obtain ⟨e, he, hce⟩ := h.awaited n j hj (by simpa using hd)
  simp only [ledger, Multiset.mem_filter, Multiset.mem_add, Multiset.notMem_zero, false_or] at he
  have hoff := hidle e he.1
  cases e with
  | expire m =>
    cases hce
    obtain ⟨i, hi, hdone⟩ := hoff
    cases hj.symm.trans hi
    exact hd hdone
  | deliver m o => exact hoff
  | _ => exact hce

end Service

end Legible
