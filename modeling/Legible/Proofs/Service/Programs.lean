import Legible.Proofs.Service.Delivery
/-!
# What a program does with a service

A program makes moves and waits: for some time, for one type, for the display or for a batch. Each of its calls is a
course, since what happens meanwhile is events (`leads_call`), and so are all of them one after the other
(`leads_runProgram`). What holds in every course therefore holds between any two calls of any program, and on to the
end if the clock is left alone after the last one.
-/

namespace Legible.Service

/-- What a program can do with a service, waiting included. -/
inductive Call where
  | move (m : Move)
  | sleep (time : Nat)
  | format (content : Text)
  | display (shown : Shown)
  | update (segments : List Segment) (shown : Shown) (wait : Bool)

/-- A slot is asked for by its batch alone. -/
def Call.IsOwn : Call → Prop
  | .move m => m.IsOwn
  | _ => True

/-- The service after a call. -/
def call (s : Service) : Call → Service
  | .move m => s.make m
  | .sleep time => s.sleep time
  | .format content => (s.formatAwaited content).2
  | .display shown => (s.displayAwaited shown).2
  | .update segments shown wait => (s.update segments shown wait).2

/-- The service after the calls of a program. -/
def runProgram (s : Service) (ks : List Call) : Service := ks.foldl call s

variable {s t s₀ : Service}

theorem leads_call (s : Service) {k : Call} (hk : k.IsOwn) : Leads s (s.call k) := by
  cases k with
  | move m => exact .move hk
  | sleep time => exact leads_sleep s time
  | format content => exact leads_formatAwaited s content
  | display shown => exact leads_displayAwaited s shown
  | update segments shown wait => exact leads_update s segments shown wait

theorem leads_runProgram (s : Service) {ks : List Call} (hks : ∀ k ∈ ks, k.IsOwn) : Leads s (s.runProgram ks) := by
  induction ks generalizing s with
  | nil => exact .refl s
  | cons k ks ih =>
    rw [List.forall_mem_cons] at hks
    exact (leads_call s hks.1).trans (ih _ hks.2)

/-- Where a fresh service can come to, its jobs are sound. -/
theorem Leads.sound (h : Leads s₀ s) (h₀ : s₀.IsFresh) : Sound (s.ledger 0) := by
  obtain ⟨as, hcourse⟩ := h
  exact hcourse.sound h₀.sound

/-- A service that was fresh and is at rest owes no answers: every job has an outcome, which it has told once, and
watchers heard that and nothing else. -/
theorem Leads.answered (h : Leads s₀ s) (h₀ : s₀.IsFresh) (hidle : s.IsIdle) :
    (∀ j ∈ s.jobs, ∃ o, j.outcome = some o ∧ j.told = [o]) ∧
      (s.notices.filterMap Notice.heard?).Perm (s.jobs.flatMap Job.heard) := by
  have hs := h.sound h₀
  refine ⟨?_, hs.heard⟩
  intro j hj
  obtain ⟨n, hn⟩ := List.getElem?_of_mem hj
  obtain ⟨o, ho⟩ := Option.isSome_iff_exists.mp (hs.done_of_isIdle hidle hn)
  exact ⟨o, ho, by rw [hs.told n j hn, ho, Option.toList_some]⟩

/-- Whatever a program has called, no job has told two outcomes, and the clock, left alone, comes to rest with every
job answered. -/
theorem programs_come_to_rest (h₀ : s₀.IsFresh) {ks : List Call} (hks : ∀ k ∈ ks, k.IsOwn) :
    (∀ j ∈ (s₀.runProgram ks).jobs, j.told.length ≤ 1) ∧
    ∃ t, Runs (s₀.runProgram ks) t ∧ t.clock.pending = 0 ∧
      (∀ j ∈ t.jobs, ∃ o, j.outcome = some o ∧ j.told = [o]) ∧
      (t.notices.filterMap Notice.heard?).Perm (t.jobs.flatMap Job.heard) := by
  have hprogram := leads_runProgram s₀ hks
  refine ⟨?_, ?_⟩
  · intro j hj
    obtain ⟨n, hn⟩ := List.getElem?_of_mem hj
    rw [(hprogram.sound h₀).told n j hn]
    cases j.outcome <;> simp
  · obtain ⟨t, hruns, hrest⟩ := exists_runs_to_rest (s₀.runProgram ks)
    have hidle : t.IsIdle := fun e he => absurd (hrest ▸ he) (Multiset.notMem_zero e)
    exact ⟨t, hruns, hrest, (hprogram.trans hruns.leads).answered h₀ hidle⟩

end Legible.Service
