import Legible.Proofs.Message.Grammar
import Legible.Proofs.Service.Showing
import Mathlib.Algebra.Order.BigOperators.Group.Multiset
/-!
# Whoever waits is woken

The program waits for one thing at a time: `wakings` counts how often it is yet to be woken, and only waiting
itself adds to that. Whoever waits for a batch goes on waiting until the batch has its result, and is then woken
(`Waits`). Since every job of a batch comes to an outcome before the clock comes to rest, the program does not wait
in vain; and the bound on events that it waits for is high enough (`work_le_bound`).
-/

namespace Legible

/-! ## There are enough events to come -/

theorem length_codePlaces (segments : List Segment) :
    (Service.codePlaces segments).length = segments.countP Segment.isCode := by
  have hfst : segments = segments.zipIdx.map (·.1) := (List.zipIdx_map_fst 0 segments).symm
  rw [Service.codePlaces, List.length_map, ← List.countP_eq_length_filter]
  conv => rhs; rw [hfst, List.countP_map]
  rfl

namespace Message

/-- Each type takes two quotes. -/
theorem two_mul_countP_isCode_le (m : Text) : 2 * (segments m).countP Segment.isCode ≤ m.length := by
  obtain ⟨c, hc⟩ := exists_cut m
  have hprose (t : Text) : (Cut.proseSegments t).countP Segment.isCode = 0 := by
    unfold Cut.proseSegments
    split <;> rfl
  rw [segments_eq_of_cut hc]
  induction hc with
  | rest => simp [Cut.segments, hprose]
  | @span t q m c _ _ _ ih =>
    have hspan : (if (Cut.spanSegment q).isCode then 1 else 0) ≤ 1 := by split <;> omega
    simp only [Cut.segments, List.flatMap_cons, List.countP_append, List.countP_cons, List.countP_nil, hprose,
      List.length_append, List.length_cons] at ih ⊢
    omega

end Message

namespace Service

section Sums

variable {α : Type} {l : List α}

theorem foldl_eq_add_sum {g : Nat → α → Nat} {f : α → Nat} (h : ∀ n x, g n x = n + f x) (n : Nat) :
    l.foldl g n = n + (l.map f).sum := by
  induction l generalizing n with
  | nil => rfl
  | cons x r ih =>
    rw [List.foldl_cons, ih, h, List.map_cons, List.sum_cons]
    omega

theorem sum_map_le {f : α → Nat} {c : Nat} (h : ∀ x, f x ≤ c) : (l.map f).sum ≤ c * l.length := by
  induction l with
  | nil => rfl
  | cons x r ih =>
    have := h x
    simp only [List.map_cons, List.sum_cons, List.length_cons, Nat.mul_succ]
    omega

end Sums

/-- The characters of a message that is yet to be shown. -/
def room : Wait → Nat
  | .ready shown => shown.diagnostic.message.length
  | _ => 0

theorem bound_eq (s : Service) :
    s.bound = 4 * (s.clock.queue.length + s.clock.timers.length + s.jobs.length + s.waits.length
      + (s.waits.map room).sum) + (s.batches.map (·.waiters.length)).sum + 4 := by
  rw [bound, foldl_eq_add_sum (f := room), foldl_eq_add_sum (f := fun b : Batch => b.waiters.length), Nat.zero_add,
    Nat.zero_add]
  · exact fun _ _ => rfl
  · intro n w
    cases w <;> rfl

/-- A diagnostic that is yet to be shown causes no more than its message has room for. -/
theorem work_wait_le (w : Wait) : w.work ≤ 4 * (1 + room w) := by
  cases w with
  | ready shown =>
    have h := Message.two_mul_countP_isCode_le shown.diagnostic.message
    rw [← length_codePlaces] at h
    simp only [Wait.work, room]
    omega
  | _ => exact Nat.zero_le _

/-- There is never more to do than the bound says. -/
theorem work_le_bound (s : Service) : s.work ≤ s.bound := by
  have hevents : (s.clock.pending.map Event.work).sum ≤ 2 * (s.clock.queue.length + s.clock.timers.length) := by
    have hle : ∀ e : Event, e.work ≤ 2 := by
      intro e
      cases e <;> simp [Event.work]
    simpa [Clock.pending] using sum_map_le (l := s.clock.queue ++ s.clock.timers.map (·.event)) hle
  have hjobs : (s.jobs.map Job.work).sum ≤ 4 * s.jobs.length := by
    refine sum_map_le fun j => ?_
    have htask : j.task.work ≤ 3 := by cases j.task <;> simp [Task.work]
    unfold Job.work
    split <;> omega
  have hwaiters : (s.batches.map fun b => (b.waiters.map fun _ => 1).sum).sum
      = (s.batches.map (·.waiters.length)).sum := by simp
  have hwaits : (s.waits.map Wait.work).sum ≤ 4 * (s.waits.length + (s.waits.map room).sum) := by
    induction s.waits with
    | nil => rfl
    | cons w r ih =>
      have := work_wait_le w
      simp only [List.map_cons, List.sum_cons, List.length_cons] at ih ⊢
      omega
  have hwork : s.work = (s.clock.pending.map Event.work).sum + (s.jobs.map Job.work).sum
      + (s.batches.map fun b => (b.waiters.map fun _ => 1).sum).sum + (s.waits.map Wait.work).sum := rfl
  rw [hwork, hwaiters, bound_eq]
  omega

/-! ## Whoever waits for a batch -/

variable {s t u : Service} {n : Nat} {x : Waiter} {a : Act}

/-- Someone waits for a batch, or is about to be woken because it has its result. -/
def Waits (s : Service) (n : Nat) (x : Waiter) : Prop :=
  ∃ b, s.batches[n]? = some b ∧
    (b.result = none ∧ x ∈ b.waiters ∨ b.result.isSome = true ∧ .wake x ∈ s.clock.pending)

namespace Waits

theorem mono (h : s.Waits n x) (hb : t.batches = s.batches) (hp : s.clock.pending ≤ t.clock.pending) :
    t.Waits n x := by
  obtain ⟨b, hbn, hwaits | ⟨hsome, hwake⟩⟩ := h
  · exact ⟨b, hb ▸ hbn, .inl hwaits⟩
  · exact ⟨b, hb ▸ hbn, .inr ⟨hsome, Multiset.mem_of_le hp hwake⟩⟩

theorem pending_wakeAll (s : Service) (ws : List Waiter) :
    (s.wakeAll ws).clock.pending = s.clock.pending + ↑(ws.map Event.wake) := by
  rw [wakeAll_eq]
  simp only [Clock.pending, Multiset.coe_add, Multiset.coe_eq_coe, List.append_assoc]
  exact List.perm_append_comm.append_left _

/-- A batch that gets its result wakes all who wait for it. -/
theorem settle (h : s.Waits n x) (m : Nat) : (s.settle m).Waits n x := by
  unfold Service.settle
  split
  · exact h
  · rename_i b hb
    split
    · rename_i hresult
      simp only [Bool.and_eq_true, Option.isNone_iff_eq_none] at hresult
      have hbatches (u : Service) (ws : List Waiter) : (u.wakeAll ws).batches = u.batches := by rw [wakeAll_eq]
      obtain ⟨c, hc, hcase⟩ := h
      by_cases hm : m = n
      · subst hm
        cases hb.symm.trans hc
        obtain ⟨_, hx⟩ | ⟨hsome, _⟩ := hcase
        · refine ⟨{ b with result := some b.slots, waiters := [] }, ?_, .inr ⟨rfl, ?_⟩⟩
          · rw [hbatches]
            exact List.getElem?_set_self (List.getElem?_eq_some_iff.mp hb).1
          · rw [pending_wakeAll, Multiset.mem_add]
            exact .inr (Multiset.mem_coe.mpr (List.mem_map_of_mem hx))
        · rw [hresult.2] at hsome
          cases hsome
      · refine ⟨c, ?_, hcase.imp_right (And.imp_right fun hwake => ?_)⟩
        · rw [hbatches]
          exact (List.getElem?_set_ne hm).trans hc
        · rw [pending_wakeAll]
          exact Multiset.mem_add.mpr (.inl hwake)
    · exact h

theorem land (h : s.Waits n x) (batch index : Nat) (o : Outcome) : (s.land batch index o).1.Waits n x := by
  unfold Service.land
  split
  · exact h
  · rename_i b hb
    dsimp only
    -- an outcome in its slot changes nobody's waiting
    have hput (session : Session) :
        Waits { s with batches := s.batches.set batch (b.put index o), session := session } n x := by
      obtain ⟨c, hc, hcase⟩ := h
      by_cases hm : batch = n
      · subst hm
        cases hb.symm.trans hc
        exact ⟨b.put index o, List.getElem?_set_self (List.getElem?_eq_some_iff.mp hb).1, hcase⟩
      · exact ⟨c, (List.getElem?_set_ne hm).trans hc, hcase⟩
    have hrender (u : Service) (d : Diagnostic) (segments : List Segment) (hu : u.Waits n x) :
        (u.render d segments).1.Waits n x := by
      obtain ⟨_, _, haside⟩ := render_aside u d segments
      rw [haside]
      exact hu.mono rfl (le_refl _)
    split
    · exact (hrender _ _ _ (hput _)).settle batch
    · exact (hput _).settle batch

theorem complete (h : s.Waits n x) (m : Nat) (o : Outcome) : (s.complete m o).1.Waits n x := by
  unfold Service.complete
  split
  · exact h
  · rename_i j _
    split
    · exact h
    · have hfix : (s.modifyJob m fun j => { j with toPromise := j.fix o }).Waits n x := h.mono rfl (le_refl _)
      dsimp only
      cases j.listener with
      | slot b i => exact hfix.land b i o
      | program =>
        refine hfix.mono rfl ?_
        change _ ≤ (Clock.push _ _).pending
        rw [Clock.pending_push]
        exact Multiset.le_cons_self _ _
      | nobody => exact hfix
      | watcher w raises => exact hfix.mono rfl (le_refl _)

end Waits

end Service

/-- One for each time that the program is to be woken. -/
def Weights.wakings : Weights where
  event e := if e = .wake .program ∨ e = .rested then 1 else 0
  job j := if !j.done && j.listener = .program then 1 else 0
  waiter x := if x = .program then 1 else 0
  wake x := by simp
  fix j o hd := by simp [hd]

namespace Service

variable {s t u : Service} {n : Nat} {x : Waiter} {a : Act}

/-- How often the program is yet to be woken. -/
def wakings (s : Service) : Nat := s.weigh .wakings

/-- Whoever waits for a batch is as well off as before, and the program is to be woken as often as before. -/
structure KeepsWaiting (s t : Service) : Prop where
  wakings : t.wakings = s.wakings
  waits : ∀ n x, s.Waits n x → t.Waits n x
  awake : t.awake = s.awake

namespace KeepsWaiting

theorem refl (s : Service) : KeepsWaiting s s := ⟨rfl, fun _ _ h => h, rfl⟩

theorem trans (h : KeepsWaiting s t) (h' : KeepsWaiting t u) : KeepsWaiting s u :=
  ⟨h'.wakings.trans h.wakings, fun n x hw => h'.waits n x (h.waits n x hw), h'.awake.trans h.awake⟩

/-- What changes neither jobs nor batches nor what is to happen. -/
theorem of_same (hjobs : t.jobs = s.jobs) (hbatches : t.batches = s.batches) (hclock : t.clock = s.clock)
    (hawake : t.awake = s.awake) : KeepsWaiting s t where
  wakings := by rw [Service.wakings, weigh, hjobs, hbatches, hclock]; rfl
  waits n x h := h.mono hbatches (hclock ▸ le_refl _)
  awake := hawake

theorem push {e : Event} (he : Weights.wakings.event e = 0) : KeepsWaiting s (s.push e) where
  wakings := by rw [Service.wakings, weigh_push, he]; rfl
  waits n x h := h.mono rfl ((Clock.pending_push ..).symm ▸ Multiset.le_cons_self _ _)
  awake := rfl

theorem after {e : Event} (he : Weights.wakings.event e = 0) (delay : Nat) : KeepsWaiting s (s.after delay e) where
  wakings := by rw [Service.wakings, weigh_after, he]; rfl
  waits n x h := h.mono rfl ((Clock.pending_after ..).symm ▸ Multiset.le_cons_self _ _)
  awake := rfl

end KeepsWaiting

theorem Alters.keepsWaiting {m : Nat} (h : Alters m s t) : KeepsWaiting s t := by
  cases h with
  | task task =>
    refine ⟨?_, fun n x h => h.mono rfl (le_refl _), rfl⟩
    cases hj : s.jobs[m]? with
    | none =>
      have hsame : (s.modifyJob m fun j => { j with task }) = s := by
        rw [modifyJob, List.modify_eq_self (by simpa using hj)]
      rw [hsame]
    | some j => exact Nat.add_right_cancel (s.weigh_modifyJob .wakings hj fun j => { j with task })
  | push => exact .push rfl
  | after delay => exact .after rfl delay
  | complete o =>
    exact ⟨s.weigh_complete .wakings m o, fun n x h => h.complete m o, (s.tells_complete m o).setting.awake⟩
  | aside => exact .of_same rfl rfl rfl rfl

theorem Altered.keepsWaiting {m : Nat} (h : Altered m s t) : KeepsWaiting s t := by
  induction h with
  | refl => exact .refl s
  | tail _ halt ih => exact ih.trans halt.keepsWaiting

/-! ## Showing a diagnostic wakes nobody -/

theorem keepsWaiting_request (s : Service) (content : Text) {l : Listener} (hl : l ≠ .program) :
    KeepsWaiting s (s.request content l).2 := by
  have hadd (u : Service) (j : Job) (hj : j.listener = l) : KeepsWaiting u (u.addJob j) := by
    refine ⟨?_, fun n x h => h.mono rfl (le_refl _), rfl⟩
    have hzero : Weights.wakings.job j = 0 := by simp [Weights.wakings, hj, hl]
    rw [wakings, weigh_addJob, hzero]
    rfl
  have hloc : KeepsWaiting s s.locate.2 := .of_same rfl rfl rfl rfl
  unfold request
  dsimp only
  split
  · exact (hadd s _ rfl).trans (.after rfl _)
  · split <;> rename_i hl <;> rw [hl] at hloc
    · exact hloc.trans ((hadd _ _ rfl).trans (.push rfl))
    · split
      · exact hloc
      · exact hloc.trans ((hadd _ _ rfl).trans ((KeepsWaiting.push rfl).trans (.after rfl _)))

theorem keepsWaiting_requestSlots (s : Service) (batch : Nat) (segments : List Segment) (places : List Nat) :
    KeepsWaiting s (s.requestSlots batch segments places).2 := by
  induction places generalizing s with
  | nil => exact .refl s
  | cons i r ih =>
    rw [requestSlots]
    split
    · exact ih s
    · rename_i seg _
      have hreq := keepsWaiting_request s seg.content (l := .slot batch i) (by simp)
      split <;> rename_i h <;> rw [h] at hreq
      · exact hreq
      · exact hreq.trans (ih _)

theorem keepsWaiting_startBatch (s : Service) (segments : List Segment) (shown : Shown) :
    KeepsWaiting s (s.startBatch segments shown).2 := by
  unfold startBatch
  dsimp only
  generalize hb : ({ shown, slots := segments, remaining := _, result := _ } : Batch) = b
  have hwaiters : b.waiters = [] := by rw [← hb]
  have hopen : KeepsWaiting s { s with batches := s.batches ++ [b] } := by
    refine ⟨weigh_openBatch .wakings s hwaiters, ?_, rfl⟩
    rintro n x ⟨c, hc, hcase⟩
    exact ⟨c, (List.getElem?_append_left (List.getElem?_eq_some_iff.mp hc).1).trans hc, hcase⟩
  exact hopen.trans (keepsWaiting_requestSlots ..)

theorem keepsWaiting_display (s : Service) (shown : Shown) (format : Option Bool) :
    KeepsWaiting s (s.display shown format).1 := by
  by_cases hne : shown.diagnostic.message = []
  · rw [display_of_empty hne]
    exact .refl s
  have hpresent : KeepsWaiting s (s.present shown) := by
    obtain ⟨_, _, haside, _⟩ := present_aside s shown
    rw [haside]
    exact .of_same rfl rfl rfl rfl
  rcases display_cases hne s format with h | ⟨u, p, rfl, h⟩
  · rw [h]
    exact hpresent
  · rw [h]
    exact (hpresent.trans (keepsWaiting_startBatch ..)).trans (.of_same rfl rfl rfl rfl)

/-- One more waiter takes nothing from those who wait. -/
theorem Waits.awaitBatch (h : s.Waits n x) (m : Nat) (y : Waiter) : (s.awaitBatch m y).2.Waits n x := by
  unfold Service.awaitBatch
  split
  · exact h
  · rename_i b hb
    split
    · exact h
    · rename_i hnone
      obtain ⟨c, hc, hcase⟩ := h
      by_cases hm : m = n
      · subst hm
        cases hb.symm.trans hc
        refine ⟨_, List.getElem?_set_self (List.getElem?_eq_some_iff.mp hb).1, hcase.imp_left fun hw => ?_⟩
        exact ⟨hw.1, List.mem_append_left _ hw.2⟩
      · exact ⟨c, (List.getElem?_set_ne hm).trans hc, hcase⟩

theorem keepsWaiting_awaitBatch (s : Service) (m i : Nat) : KeepsWaiting s (s.awaitBatch m (.task i)).2 := by
  refine ⟨?_, fun n x h => h.awaitBatch m _, ?_⟩
  · cases h : (s.awaitBatch m (.task i)).1 with
    | true => exact s.weigh_awaitBatch_of_waits .wakings h
    | false => rw [s.awaitBatch_eq_self h]
  · unfold awaitBatch
    split
    · rfl
    · split <;> rfl

theorem keepsWaiting_displayAndAwait (s : Service) (shown : Shown) (i : Nat) :
    KeepsWaiting s (s.displayAndAwait shown (.task i)).2 := by
  have hshow := keepsWaiting_display s shown (some true)
  unfold displayAndAwait
  split <;> rename_i t _ h <;> rw [h] at hshow
  · exact hshow
  · split
    · exact hshow
    · rename_i n _
      have ht := keepsWaiting_awaitBatch t n i
      split <;> rename_i hu <;> rw [hu] at ht <;> exact hshow.trans ht

theorem keepsWaiting_wakeTask (s : Service) (i : Nat) : KeepsWaiting s (s.wakeTask i) := by
  unfold wakeTask
  split
  · rename_i shown _
    have hshow := keepsWaiting_displayAndAwait s shown i
    split <;> rename_i h <;> rw [h] at hshow <;> exact hshow.trans (.of_same rfl rfl rfl rfl)
  · exact .of_same rfl rfl rfl rfl
  · exact .refl s

/-! ## The program waits -/

/-- The program waits for a batch, and for nothing else. -/
structure Awaits (s : Service) (n : Nat) : Prop where
  waits : s.Waits n .program
  once : s.wakings = 1

/-- The batch has its result. -/
def Settled (s : Service) (n : Nat) : Prop := ∃ b, s.batches[n]? = some b ∧ b.result.isSome = true

/-- Who waits is yet to be woken. -/
theorem Waits.wakings_pos (h : s.Waits n .program) : 0 < s.wakings := by
  obtain ⟨b, hb, ⟨_, hx⟩ | ⟨_, hwake⟩⟩ := h
  · have hbatch : (b.waiters.map Weights.wakings.waiter).sum
        ∈ s.batches.map fun b => (b.waiters.map Weights.wakings.waiter).sum :=
      List.mem_map_of_mem (List.mem_of_getElem? hb)
    have hle := List.le_sum_of_mem hbatch
    have hone : 1 ≤ (b.waiters.map Weights.wakings.waiter).sum :=
      List.le_sum_of_mem (List.mem_map.mpr ⟨.program, hx, rfl⟩)
    unfold wakings weigh
    omega
  · have hone : Weights.wakings.event (.wake .program) ≤ (s.clock.pending.map Weights.wakings.event).sum :=
      Multiset.le_sum_of_mem (Multiset.mem_map_of_mem _ hwake)
    have hevent : Weights.wakings.event (.wake .program) = 1 := rfl
    unfold wakings weigh
    omega

/-- The next event leaves the program waiting, or it is the one that wakes it, and then the batch has its result. -/
theorem Awaits.step? (h : s.Awaits n) (hstep : s.step? = some t) :
    t.Awaits n ∧ t.awake = s.awake ∨ t.awake = true ∧ t.wakings = 0 ∧ t.Settled n := by
  unfold Service.step? at hstep
  split at hstep
  · cases hstep
  rename_i e c hc
  cases hstep
  have honce := h.once
  have hpending := Clock.pending_of_next? hc
  have hcount : s.wakings = wakings { s with clock := c } + Weights.wakings.event e :=
    s.weigh_of_pending .wakings hpending
  -- the wait goes on as long as the event is not the waking of the program
  have hwaits (he : e ≠ .wake .program) : Waits { s with clock := c } n .program := by
    obtain ⟨b, hb, hcase⟩ := h.waits
    refine ⟨b, hb, hcase.imp_right (And.imp_right fun hwake => ?_)⟩
    rw [hpending] at hwake
    exact (Multiset.mem_cons.mp hwake).resolve_left fun h => he h.symm
  have keeps (he : e ≠ .wake .program) (hzero : Weights.wakings.event e = 0)
      (hk : KeepsWaiting { s with clock := c } (handle { s with clock := c } e)) :
      (handle { s with clock := c } e).Awaits n ∧ (handle { s with clock := c } e).awake = s.awake := by
    refine ⟨⟨hk.waits _ _ (hwaits he), ?_⟩, hk.awake⟩
    rw [hk.wakings]
    omega
  cases hj : e.job? with
  | some m =>
    have hne : e ≠ .wake .program := by
      rintro rfl
      cases hj
    have hzero : Weights.wakings.event e = 0 := by
      cases e <;> first | rfl | cases hj
    exact .inl (keeps hne hzero (altered_handle hj _).keepsWaiting)
  | none =>
    cases e with
    | rested =>
      have hpos := (hwaits (by simp)).wakings_pos
      have hone : Weights.wakings.event .rested = 1 := rfl
      omega
    | wake y =>
      cases y with
      | task i => exact .inl (keeps (by simp) rfl (keepsWaiting_wakeTask _ i))
      | program =>
        have hone : Weights.wakings.event (.wake .program) = 1 := rfl
        refine .inr ⟨rfl, ?_, ?_⟩
        · change wakings { s with clock := c } = 0
          omega
        · obtain ⟨b, hb, ⟨hnone, hx⟩ | ⟨hsome, _⟩⟩ := h.waits
          · have hpos : 0 < wakings { s with clock := c } := Waits.wakings_pos ⟨b, hb, .inl ⟨hnone, hx⟩⟩
            omega
          · exact ⟨b, hb, hsome⟩
    | _ => cases hj

/-- The program does not wait in vain: as long as it waits, something is to happen. -/
theorem Awaits.step?_ne_none (h : s.Awaits n) (hs : Sound (s.ledger 0)) {shown : Shown} {segments : List Segment}
    (hfill : Filling n shown segments 0 (s.ledger 0)) : s.step? ≠ none := by
  intro hnone
  have hrest : s.clock.pending = 0 := by
    unfold Service.step? at hnone
    split at hnone
    · rename_i hnext
      exact (Clock.next?_eq_none_iff _).mp hnext
    · cases hnone
  have hidle : s.IsIdle := fun e he => absurd (hrest ▸ he) (Multiset.notMem_zero e)
  have hundone : undone s.jobs n = 0 := by
    rw [undone_eq_zero_iff]
    intro j hj _
    obtain ⟨i, hi⟩ := List.getElem?_of_mem hj
    exact hs.done_of_isIdle hidle hi
  obtain ⟨b, hb, ⟨hresult, _⟩ | ⟨_, hwake⟩⟩ := h.waits
  · have hres : b.result = if undone s.jobs n + 0 = 0 then some (fill (answerTo s.jobs n) segments) else none :=
      congrArg Batch.result (hfill.bare_eq hb)
    rw [hundone, hresult] at hres
    cases hres
  · rw [hrest] at hwake
    exact Multiset.notMem_zero _ hwake

/-- The program is woken once the batch has its result, and waits for nothing then. -/
theorem Awaits.runSteps (h : s.Awaits n) (hs : Sound (s.ledger 0)) {shown : Shown} {segments : List Segment}
    (hfill : Filling n shown segments 0 (s.ledger 0)) (hawake : s.awake = false) (fuel : Nat) (hfuel : s.work ≤ fuel) :
    (runSteps fuel s).awake = true ∧ (runSteps fuel s).wakings = 0 ∧ (runSteps fuel s).Settled n := by
  -- each event uses up work, so the fuel lasts until the program is woken
  induction fuel generalizing s with
  | zero =>
    obtain ⟨t, ht⟩ := Option.ne_none_iff_exists'.mp (h.step?_ne_none hs hfill)
    have := work_step?_lt ht
    omega
  | succ fuel ih =>
    obtain ⟨t, ht⟩ := Option.ne_none_iff_exists'.mp (h.step?_ne_none hs hfill)
    have hlt := work_step?_lt ht
    obtain ⟨e, hstep⟩ := step_of_step? ht
    have hrun : Service.runSteps (fuel + 1) s = Service.runSteps fuel t := by
      rw [Service.runSteps, hawake, ht]
      rfl
    rw [hrun]
    rcases h.step? ht with ⟨hnext, hsame⟩ | ⟨hwoken, hdone⟩
    · exact ih hnext (hstep.sound hs) (hstep.filling hfill) (hsame.trans hawake) (by omega)
    · have hstop : Service.runSteps fuel t = t := by
        cases fuel with
        | zero => rfl
        | succ fuel => rw [Service.runSteps, if_pos hwoken]
      rw [hstop]
      exact ⟨hwoken, hdone⟩

end Service

end Legible
