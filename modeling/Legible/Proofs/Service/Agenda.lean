import Legible.Proofs.Service.Ledger
/-!
# What is to happen to one job

As long as the timers are in order, the events about one job happen in the order in which the clock of these events
alone would let them happen: whatever else is in the queue or behind a timer, `Clock.of` shows what is next for the
job, and when.
-/

namespace Legible

namespace Clock

variable {c c' : Clock} {e : Event} {n : Nat}

/-- The clock with the events about one job alone. -/
def of (c : Clock) (n : Nat) : Clock where
  now := c.now
  queue := c.queue.filter (·.job? = some n)
  timers := c.timers.filter (·.event.job? = some n)

/-- The timers are in order of time. -/
def Sorted (c : Clock) : Prop := c.timers.Pairwise (·.due ≤ ·.due)

section Timers

variable {t : Timer} {ts : List Timer}

theorem pairwise_insert (h : ts.Pairwise (·.due ≤ ·.due)) (t : Timer) : (insert t ts).Pairwise (·.due ≤ ·.due) := by
  induction ts with
  | nil => exact List.pairwise_singleton ..
  | cons u r ih =>
    obtain ⟨hu, hr⟩ := List.pairwise_cons.mp h
    rw [insert]
    split
    · rename_i hle
      refine List.pairwise_cons.mpr ⟨fun v hv => ?_, ih hr⟩
      rcases List.mem_cons.mp ((insert_perm t r).mem_iff.mp hv) with rfl | hv
      · exact hle
      · exact hu v hv
    · rename_i hlt
      refine List.pairwise_cons.mpr ⟨fun v hv => ?_, h⟩
      rcases List.mem_cons.mp hv with rfl | hv
      · omega
      · have := hu v hv
        omega

theorem filter_insert_of_not {p : Timer → Bool} (hp : p t = false) : (insert t ts).filter p = ts.filter p := by
  induction ts with
  | nil => simp [insert, hp]
  | cons u r ih =>
    rw [insert]
    split
    · rw [List.filter_cons, List.filter_cons, ih]
    · rw [List.filter_cons, hp]
      rfl

/-- A timer takes its place among those of its job. -/
theorem filter_insert {p : Timer → Bool} (h : ts.Pairwise (·.due ≤ ·.due)) (hp : p t = true) :
    (insert t ts).filter p = insert t (ts.filter p) := by
  induction ts with
  | nil => simp [insert, hp]
  | cons u r ih =>
    obtain ⟨hu, hr⟩ := List.pairwise_cons.mp h
    rw [insert]
    split
    · rename_i hle
      rw [List.filter_cons, List.filter_cons, ih hr]
      split
      · rw [insert, if_pos hle]
      · rfl
    · rename_i hlt
      rw [List.filter_cons, if_pos hp]
      -- the timers of the job are later, too
      cases hf : (u :: r).filter p with
      | nil => rfl
      | cons v r' =>
        have hv : v ∈ u :: r := (List.mem_filter.mp (hf ▸ List.mem_cons_self)).1
        have hle : u.due ≤ v.due := by
          rcases List.mem_cons.mp hv with rfl | hv
          · exact Nat.le_refl _
          · exact hu v hv
        rw [insert, if_neg (by omega)]

theorem filter_takeWhile_due (h : ts.Pairwise (·.due ≤ ·.due)) (time : Nat) (p : Timer → Bool) :
    (ts.takeWhile (·.due ≤ time)).filter p = (ts.filter p).takeWhile (·.due ≤ time) ∧
      (ts.dropWhile (·.due ≤ time)).filter p = (ts.filter p).dropWhile (·.due ≤ time) := by
  induction ts with
  | nil => exact ⟨rfl, rfl⟩
  | cons u r ih =>
    obtain ⟨hu, hr⟩ := List.pairwise_cons.mp h
    by_cases hdue : u.due ≤ time
    · obtain ⟨htake, hdrop⟩ := ih hr
      rw [List.takeWhile_cons_of_pos (by simpa using hdue), List.dropWhile_cons_of_pos (by simpa using hdue),
        List.filter_cons, List.filter_cons, htake, hdrop]
      split
      · rw [List.takeWhile_cons_of_pos (by simpa using hdue), List.dropWhile_cons_of_pos (by simpa using hdue)]
        exact ⟨rfl, rfl⟩
      · exact ⟨rfl, rfl⟩
    · -- the first timer is not due, and so none is
      rw [List.takeWhile_cons_of_neg (by simpa using hdue), List.dropWhile_cons_of_neg (by simpa using hdue)]
      cases hf : (u :: r).filter p with
      | nil => exact ⟨rfl, rfl⟩
      | cons v r' =>
        have hv : v ∈ u :: r := (List.mem_filter.mp (hf ▸ List.mem_cons_self)).1
        have hlate : ¬ v.due ≤ time := by
          rcases List.mem_cons.mp hv with rfl | hv
          · exact hdue
          · have := hu v hv
            omega
        rw [List.takeWhile_cons_of_neg (by simpa using hlate), List.dropWhile_cons_of_neg (by simpa using hlate)]
        exact ⟨rfl, rfl⟩

end Timers

/-! ## One more event -/

theorem Sorted.push (h : c.Sorted) (e : Event) : (c.push e).Sorted := h

theorem Sorted.of (h : c.Sorted) (n : Nat) : (c.of n).Sorted := List.Pairwise.filter _ h

theorem Sorted.after (h : c.Sorted) (delay : Nat) (e : Event) : (c.after delay e).Sorted := pairwise_insert h _

theorem of_push_self (he : e.job? = some n) (c : Clock) : (c.push e).of n = (c.of n).push e := by
  simp [of, push, he]

theorem of_push_other (he : e.job? ≠ some n) (c : Clock) : (c.push e).of n = c.of n := by
  simp [of, push, he]

theorem of_after_self (he : e.job? = some n) (hs : c.Sorted) (delay : Nat) :
    (c.after delay e).of n = (c.of n).after delay e := by
  simp only [of, after]
  rw [filter_insert hs (by simpa using he)]

theorem of_after_other (he : e.job? ≠ some n) (c : Clock) (delay : Nat) : (c.after delay e).of n = c.of n := by
  simp only [of, after]
  rw [filter_insert_of_not (by simpa using he)]

/-- Wakings are about no job. -/
theorem of_wake (c : Clock) (ws : List Waiter) (n : Nat) : of { c with queue := c.queue ++ ws.map .wake } n = c.of n := by
  have hnone : (ws.map Event.wake).filter (·.job? = some n) = [] := by
    rw [List.filter_eq_nil_iff]
    intro e he
    obtain ⟨w, _, rfl⟩ := List.mem_map.mp he
    simp [Event.job?]
  simp only [of, List.filter_append, hnone, List.append_nil]

/-! ## The next event -/

theorem of_advance (hs : c.Sorted) (time : Nat) : (c.advance time).of n = (c.of n).advance time := by
  obtain ⟨htake, hdrop⟩ := filter_takeWhile_due hs time fun t => decide (t.event.job? = some n)
  simp only [of, advance, List.filter_append, List.filter_map]
  rw [← htake, ← hdrop]
  rfl

theorem Sorted.next? (hs : c.Sorted) (h : c.next? = some (e, c')) : c'.Sorted := by
  unfold Clock.next? at h
  split at h
  · cases h
    exact hs
  · split at h
    · cases h
    · rename_i t r ht
      cases h
      have hr : r.Pairwise (·.due ≤ ·.due) := by
        rw [Sorted, ht] at hs
        exact (List.pairwise_cons.mp hs).2
      exact hr.sublist (List.dropWhile_sublist _)

/-- What is next and is about a job is next for the job. -/
theorem of_next?_self (hs : c.Sorted) (h : c.next? = some (e, c')) (he : e.job? = some n) :
    (c.of n).next? = some (e, c'.of n) := by
  unfold next? at h
  split at h
  · rename_i e' r hq
    cases h
    have hof : (c.of n).queue = e :: r.filter (·.job? = some n) := by simp [of, hq, he]
    unfold next?
    rw [hof]
    rfl
  · rename_i hq
    split at h
    · cases h
    · rename_i t r ht
      cases h
      -- nothing is queued, so the first of all timers is the first of the job's
      have hr : r.Pairwise (·.due ≤ ·.due) := by
        rw [Sorted, ht] at hs
        exact (List.pairwise_cons.mp hs).2
      have hqueue : (c.of n).queue = [] := by simp [of, hq]
      have htimers : (c.of n).timers = t :: r.filter (·.event.job? = some n) := by simp [of, ht, he]
      have hadvance := of_advance (c := { c with timers := r }) (n := n) hr t.due
      unfold next?
      rw [hqueue, htimers]
      change some (t.event, { now := t.due, queue := _, timers := _ })
        = some (t.event, { (Clock.of (Clock.advance { c with timers := r } t.due) n) with now := t.due })
      rw [hadvance]
      simp only [of, advance, hq, List.filter_nil]

/-- What is next and is not about a job leaves for the job what was next. -/
theorem of_next?_other (hs : c.Sorted) (h : c.next? = some (e, c')) (he : e.job? ≠ some n) :
    c'.of n = c.of n ∨
      (c.of n).queue = [] ∧ (∀ t ∈ (c.of n).timers, c'.now ≤ t.due) ∧ c'.of n = (c.of n).advance c'.now := by
  unfold next? at h
  split at h
  · rename_i e' r hq
    cases h
    left
    simp [of, hq, he]
  · rename_i hq
    split at h
    · cases h
    · rename_i t r ht
      cases h
      rw [Sorted, ht] at hs
      obtain ⟨hfirst, hr⟩ := List.pairwise_cons.mp hs
      -- the timer is not the job's, and until it is due nothing of the job is
      have hqueue : (c.of n).queue = [] := by simp [of, hq]
      have hof : c.of n = Clock.of { c with timers := r } n := by simp [of, ht, he]
      refine .inr ⟨hqueue, ?_, ?_⟩
      · intro u hu
        rw [hof] at hu
        exact hfirst u (List.mem_filter.mp hu).1
      · rw [hof]
        exact of_advance (c := { c with timers := r }) hr t.due

/-- Until the first timer is due, the same is next. -/
theorem next?_advance (hqueue : c.queue = []) (htimers : c.timers ≠ []) (hs : c.Sorted) {time : Nat}
    (hdue : ∀ t ∈ c.timers, time ≤ t.due) : (c.advance time).next? = c.next? := by
  obtain ⟨now, queue, timers⟩ := c
  cases hqueue
  cases timers with
  | nil => exact absurd rfl htimers
  | cons t r =>
    have hle := hdue t List.mem_cons_self
    obtain ⟨hfirst, _⟩ := List.pairwise_cons.mp hs
    by_cases hnow : time = t.due
    · subst hnow
      simp [next?, advance]
    · have hlate : ¬ t.due ≤ time := by omega
      simp [next?, advance, hlate]

end Clock

end Legible
