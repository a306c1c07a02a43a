import Legible.Service.Basic
import Mathlib.Data.Multiset.AddSub
/-!
# What is still to happen

The queue and the timers together hold the events that are still to happen. Which of them comes next is
a matter of the clock; that none is lost and none happens twice is not.
-/

namespace Legible.Clock

/-- The events that are still to happen, in the queue or behind a timer. -/
def pending (c : Clock) : Multiset Event := ↑(c.queue ++ c.timers.map (·.event))

theorem insert_perm (t : Timer) (ts : List Timer) : (insert t ts).Perm (t :: ts) := by
  induction ts with
  | nil => exact .refl _
  | cons u r ih =>
    simp only [insert]
    split
    · exact (ih.cons u).trans (.swap t u r)
    · exact .refl _

@[simp] theorem pending_push (c : Clock) (e : Event) : (c.push e).pending = e ::ₘ c.pending := by
  simp only [pending, push, Multiset.cons_coe, Multiset.coe_eq_coe, List.append_assoc, List.singleton_append]
  exact List.perm_middle

@[simp] theorem pending_after (c : Clock) (delay : Nat) (e : Event) :
    (c.after delay e).pending = e ::ₘ c.pending := by
  simp only [pending, after, Multiset.cons_coe, Multiset.coe_eq_coe]
  have h := ((insert_perm ⟨c.now + delay, e⟩ c.timers).map (·.event)).append_left c.queue
  exact h.trans List.perm_middle

theorem pending_advance (c : Clock) (time : Nat) : (c.advance time).pending = c.pending := by
  simp only [pending, advance, List.append_assoc, ← List.map_append, List.takeWhile_append_dropWhile]

/-- The event that the clock comes to was still to happen, and the others still are. -/
theorem pending_of_next? {c c' : Clock} {e : Event} (h : c.next? = some (e, c')) :
    c.pending = e ::ₘ c'.pending := by
  unfold next? at h
  split at h
  · rename_i e' r hq
    cases h
    simp [pending, hq]
  · rename_i hq
    split at h
    · cases h
    · rename_i t r ht
      cases h
      have hadv := pending_advance { c with timers := r } t.due
      simp only [pending] at hadv ⊢
      rw [hadv]
      simp [hq, ht]

/-- The clock comes to an event as long as there is one. -/
theorem next?_eq_none_iff (c : Clock) : c.next? = none ↔ c.pending = 0 := by
  unfold next?
  constructor
  · intro h
    split at h
    · cases h
    · rename_i hq
      split at h
      · rename_i ht
        simp [pending, hq, ht]
      · cases h
  · intro h
    simp only [pending, Multiset.coe_eq_zero, List.append_eq_nil_iff, List.map_eq_nil_iff] at h
    simp [h.1, h.2]

end Legible.Clock
