import Legible.Proofs.Service.Batches
/-!
# What is shown

A result that lands is shown if and only if its batch is for the diagnostic on display, and diagnostics are
told apart by their handles. So a result of an earlier showing is dropped once another diagnostic is shown or
nothing is, but not once the same diagnostic is shown again: `Undisturbed` rules that out, and then what is
shown are the segments with the results of the showing's own jobs.
-/

namespace Legible.Service

open Ledger

variable {a : Act} {c₀ c d : Ledger} {s t u v : Service} {n missing : Nat} {shown : Shown} {segments : List Segment}
  {before : Option View}

/-- The jobs for a batch are all asked for in the act that opens it. -/
theorem Effects.listener_of_slot (h : Effects a c₀ c d) (hn : n < c₀.batches.length) {i place : Nat} {j : Job}
    (hj : d.jobs[i]? = some j) (hl : j.listener = .slot n place) :
    ∃ k, c.jobs[i]? = some k ∧ k.listener = .slot n place := by
  induction h generalizing j with
  | refl => exact ⟨j, hj, hl⟩
  | tail _ heff ih =>
    rcases heff.turned hj with ⟨k, hk, hturn⟩ | ⟨_, _, _, _, _, hask, hslot, _⟩
    · have hlk : k.listener = .slot n place := by cases hturn <;> exact hl
      exact ih hk hlk
    · obtain ⟨_, hlis, _⟩ := hask.new
      have := (hslot n place (hlis ▸ hl)).1
      omega

theorem Effects.length_batches (h : Effects a c₀ c d) : c.batches.length ≤ d.batches.length := by
  induction h with
  | refl => exact Nat.le_refl _
  | tail _ heff ih => exact Nat.le_trans ih heff.length_batches

theorem Step.length_batches (h : Step s a t) : s.batches.length ≤ t.batches.length := by
  simpa [ledger] using h.effects.length_batches

theorem Step.listener_of_slot (h : Step s a t) (hn : n < s.batches.length) {i place : Nat} {j : Job}
    (hj : t.jobs[i]? = some j) (hl : j.listener = .slot n place) :
    ∃ k, s.jobs[i]? = some k ∧ k.listener = .slot n place :=
  h.effects.listener_of_slot (by simpa [ledger] using hn) hj hl

/-- The answer for a slot stays as long as its job comes to nothing. -/
theorem answerTo_congr {jobs jobs' : List Job} {place : Nat} (h : Once jobs n) (h' : Once jobs' n)
    (hto : ∀ (i : Nat) (j : Job), jobs[i]? = some j → j.listener = .slot n place →
      ∃ j', jobs'[i]? = some j' ∧ j'.listener = .slot n place ∧ j'.outcome = j.outcome)
    (hfrom : ∀ (i : Nat) (j' : Job), jobs'[i]? = some j' → j'.listener = .slot n place →
      ∃ j, jobs[i]? = some j ∧ j.listener = .slot n place) : answerTo jobs' n place = answerTo jobs n place := by
  by_cases hex : ∃ (i : Nat) (j : Job), jobs[i]? = some j ∧ j.listener = .slot n place
  · obtain ⟨i, j, hj, hl⟩ := hex
    obtain ⟨j', hj', hl', ho⟩ := hto i j hj hl
    rw [answerTo_eq_outcome h hj hl, answerTo_eq_outcome h' hj' hl', ho]
  · rw [answerTo_eq_none fun i j hj hl => hex ⟨i, j, hj, hl⟩]
    refine answerTo_eq_none ?_
    intro i j' hj' hl'
    obtain ⟨j, hj, hl⟩ := hfrom i j' hj' hl'
    exact hex ⟨i, j, hj, hl⟩

/-- Only the jobs up to here count for a batch, if no later one is for it. -/
theorem answerTo_take {jobs : List Job} {m : Nat}
    (h : ∀ (i place : Nat) (j : Job), jobs[i]? = some j → j.listener = .slot n place → i < m) :
    answerTo (jobs.take m) n = answerTo jobs n := by
  funext place
  have hdrop : ((jobs.drop m).find? fun j => j.listener = .slot n place) = none := by
    rw [List.find?_eq_none]
    intro j hj hl
    obtain ⟨p, hp⟩ := List.getElem?_of_mem hj
    rw [List.getElem?_drop] at hp
    have hlt := h _ place j hp (by simpa using hl)
    omega
  have hfind : (jobs.find? fun j => j.listener = .slot n place)
      = (jobs.take m).find? fun j => j.listener = .slot n place := by
    rw [← List.take_append_drop m jobs, List.find?_append, hdrop, Option.or_none, List.take_append_drop]
  rw [answerTo, answerTo, hfind]

/-! ## Showings -/

/-- What showing a diagnostic does: it is on display as it is, and there may be a batch of its own for it. -/
structure Presented (s t : Service) (shown : Shown) : Prop where
  session : (t.ledger 0).session = ((s.ledger 0).display shown).session
  batch : t.jobs = s.jobs ∨ ∃ js missing, t.jobs = s.jobs ++ js ∧
    Asked s.batches.length (Message.segments shown.diagnostic.message)
      (codePlaces (Message.segments shown.diagnostic.message)) js ∧
    Filling s.batches.length shown (Message.segments shown.diagnostic.message) missing (t.ledger 0)

theorem display_presented
    (hold : ∀ (i : Nat) (j : Job) (place : Nat), s.jobs[i]? = some j → j.listener ≠ .slot s.batches.length place)
    (hne : shown.diagnostic.message ≠ []) (format : Option Bool) :
    Presented s (s.display shown format).1 shown := by
  have hledger := ledger_present s shown 0
  have hjobs : (s.present shown).jobs = s.jobs := congrArg Ledger.jobs hledger
  have hsession : ((s.present shown).ledger 0).session = ((s.ledger 0).display shown).session := by rw [hledger]
  have hlen : (s.present shown).batches.length = s.batches.length := by
    have h := congrArg (fun c => c.batches.length) hledger
    simpa [ledger, Display.display, Display.present, Display.render] using h
  rcases display_cases hne s format with ht | ⟨u, p, hu, ht⟩
  · rw [ht]
    exact ⟨hsession, .inl hjobs⟩
  · obtain ⟨js, missing, hasked, hjs, hfill, ⟨b, hb⟩, _⟩ := startBatch_spec (s := s.present shown)
      (by rwa [hjobs, hlen]) (Message.segments shown.diagnostic.message) shown
    rw [hlen] at hasked hfill
    rw [hu] at hjs hfill hb
    have hopen := congrArg Display.session hb
    rw [ht]
    refine ⟨?_, .inr ⟨js, missing, ?_, hasked, hfill⟩⟩
    · rw [← hsession]
      exact hopen
    · rw [← hjobs]
      exact hjs

theorem session_awaitBatch (s : Service) (n : Nat) (w : Waiter) : (s.awaitBatch n w).2.session = s.session := by
  unfold awaitBatch
  split
  · rfl
  · split <;> rfl

theorem session_displayAndAwait (s : Service) (shown : Shown) (w : Waiter) :
    (s.displayAndAwait shown w).2.session = (s.display shown (some true)).1.session := by
  unfold displayAndAwait
  split <;> rename_i t _ h <;> rw [h]
  split
  · rfl
  · rename_i n _
    have ht := session_awaitBatch t n w
    split <;> rename_i hu <;> rw [hu] at ht <;> exact ht

/-- Whichever way a diagnostic is shown, the same happens. -/
theorem Step.display (h : Step s a t) (hshow : s.Showing shown a) : ∃ (c : Clock) (format : Option Bool),
    t.ledger 0 = (Service.display { s with clock := c } shown format).1.ledger 0 ∧
      t.session = (Service.display { s with clock := c } shown format).1.session := by
  cases h with
  | @move m hm =>
    cases m with
    | display d format =>
      cases hshow
      exact ⟨s.clock, format, rfl, rfl⟩
    | displayAndAwait d w =>
      cases hshow
      exact ⟨s.clock, some true, ledger_displayAndAwait s _ w 0, session_displayAndAwait s _ w⟩
    | toggle d =>
      obtain ⟨hnone, rfl⟩ := hshow
      rw [make, toggle, if_neg (by simp [hnone])]
      exact ⟨s.clock, none, rfl, rfl⟩
    | _ => exact hshow.elim
  | @event e c hp =>
    cases e with
    | wake w =>
      cases w with
      | task n =>
        refine ⟨c, some true, ?_⟩
        rcases ledger_wakeTask { s with clock := c } n 0 with ⟨d, hd, hsame⟩ | ⟨hno, _⟩
        · cases hd.symm.trans hshow
          refine ⟨hsame, ?_⟩
          have hsession := session_displayAndAwait { s with clock := c } shown (.task n)
          have hready : Service.waits { s with clock := c } = s.waits := rfl
          rw [handle, wakeTask, hready, show s.waits[n]? = some (.ready shown) from hshow]
          dsimp only
          split <;> rename_i hu <;> rw [hu] at hsession <;> exact hsession
        · exact absurd hshow (hno shown)
      | program => exact hshow.elim
    | _ => exact hshow.elim

theorem Step.presented (h : Step s a t) (hs : Sound (s.ledger 0)) (hshow : s.Showing shown a)
    (hne : shown.diagnostic.message ≠ []) : Presented s t shown := by
  obtain ⟨c, format, hledger, _⟩ := h.display hshow
  have hp : Presented { s with clock := c } (Service.display { s with clock := c } shown format).1 shown :=
    display_presented (s := { s with clock := c }) hs.listener_ne hne format
  have hjobs : t.jobs = (Service.display { s with clock := c } shown format).1.jobs := congrArg Ledger.jobs hledger
  exact ⟨hledger ▸ hp.session, by rw [hjobs, hledger]; exact hp.batch⟩

/-! ## Between two showings -/

/-- A job comes to this outcome, which is to fill this place of this batch. -/
def LandsIn (s t : Service) (i place : Nat) (b : Batch) (o : Outcome) : Prop :=
  ∃ (n : Nat) (j j' : Job), s.jobs[i]? = some j ∧ j.listener = .slot n place ∧ j.outcome = none ∧
    s.batches[n]? = some b ∧ t.jobs[i]? = some j' ∧ j'.outcome = some o

/-- An act that shows and closes nothing. -/
def Quiet (s t : Service) : Prop := ∃ a, Step s a t ∧ ¬ s.Turns a

/-- Acts that show and close nothing. -/
abbrev Stays : Service → Service → Prop := Relation.ReflTransGen Quiet

theorem LandsIn.display {i place : Nat} {b : Batch} {o : Outcome} (h : LandsIn u v i place b o) (hq : Quiet u v) :
    (u.isCurrent b.shown = true → Refreshed u v b.shown (b.put place o).slots o) ∧
    (u.isCurrent b.shown = false → SameDisplay u v) := by
  obtain ⟨n, j, j', hj, hl, hnone, hb, hj', ho⟩ := h
  obtain ⟨a, hstep, _⟩ := hq
  obtain ⟨b', _, _, hslots, hrefresh, hsame⟩ := (hstep.lands hj hnone hj' ho).slot hl hb
  rw [hslots] at hrefresh
  exact ⟨hrefresh, hsame⟩

theorem SameDisplay.trans (h : SameDisplay s t) (h' : SameDisplay t u) : SameDisplay s u :=
  ⟨h'.current.trans h.current, h'.segments.trans h.segments, h'.errors.trans h.errors, h'.view.trans h.view,
    h'.renderings.trans h.renderings⟩

/-- The display stays as it is until a job lands for the diagnostic on it. -/
theorem Quiet.same (h : Quiet u v) (hs : Sound (u.ledger 0))
    (hno : ∀ i place b o, LandsIn u v i place b o → u.isCurrent b.shown = false) : SameDisplay u v := by
  obtain ⟨a, hstep, hq⟩ := h
  rcases hstep.of_not_turns hq with ⟨i, j, o, hlands⟩ | ⟨⟨bs, hd⟩, _⟩
  · by_cases hl : ∃ n place, j.listener = .slot n place
    · obtain ⟨n, place, hl⟩ := hl
      have hlt : n < u.batches.length := by simpa [ledger] using hs.slot i j n place hlands.before hl
      obtain ⟨b, hb⟩ : ∃ b, u.batches[n]? = some b := ⟨_, List.getElem?_eq_getElem hlt⟩
      obtain ⟨j', hj', ho⟩ := hlands.after
      have hin : LandsIn u v i place b o := ⟨n, j, j', hlands.before, hl, hlands.undone, hb, hj', ho⟩
      exact (hin.display ⟨a, hstep, hq⟩).2 (hno i place b o hin)
    · have htell : (v.ledger 0).toDisplay = (u.ledger 0).toDisplay := by
        rw [hlands.display]
        cases hlis : j.listener with
        | slot n place => exact absurd ⟨n, place, hlis⟩ hl
        | _ => rfl
      have hsession := congrArg Display.session htell
      have hviews := congrArg Display.views htell
      exact .of_ledger hsession hviews
  · have hsession := congrArg Display.session hd
    have hviews := congrArg Display.views hd
    exact .of_ledger hsession hviews

theorem Quiet.current (h : Quiet u v) (hs : Sound (u.ledger 0)) : v.session.current = u.session.current := by
  by_cases hex : ∃ i place b o, LandsIn u v i place b o ∧ u.isCurrent b.shown = true
  · obtain ⟨i, place, b, o, hin, hcur⟩ := hex
    exact ((hin.display h).1 hcur).current
  · refine (h.same hs ?_).current
    intro i place b o hin
    rw [← Bool.not_eq_true]
    exact fun hcur => hex ⟨i, place, b, o, hin, hcur⟩

/-- No task is yet to show its diagnostic. -/
def NoneReady (s : Service) : Prop := ∀ (i : Nat) (shown : Shown), s.waits[i]? ≠ some (.ready shown)

/-- While no task is yet to show its diagnostic, events leave the display to the jobs. -/
theorem NoneReady.quiet (hnone : s.NoneReady) {e : Event} (h : Step s (.event e) t) : Quiet s t := by
  refine ⟨_, h, ?_⟩
  rintro (hc | ⟨d, hd, _⟩)
  · exact hc
  · cases e with
    | wake w =>
      cases w with
      | task n => exact hnone n d hd
      | program => exact hd
    | _ => exact hd

theorem quiet_of_step? (hwaits : s.waits = []) (h : s.step? = some t) : Quiet s t := by
  obtain ⟨e, hstep⟩ := step_of_step? h
  have hnone : s.NoneReady := fun i shown => by simp [hwaits]
  exact hnone.quiet hstep

namespace Stays

theorem sound (h : Stays t u) (ht : Sound (t.ledger 0)) : Sound (u.ledger 0) := by
  induction h with
  | refl => exact ht
  | tail _ hq ih =>
    obtain ⟨a, hstep, _⟩ := hq
    exact hstep.sound ih

theorem current (h : Stays t u) (ht : Sound (t.ledger 0)) : u.session.current = t.session.current := by
  induction h with
  | refl => rfl
  | tail huv hq ih => rw [hq.current (sound huv ht), ih]

theorem config (h : Stays t u) : u.config = t.config := by
  induction h with
  | refl => rfl
  | tail _ hq ih =>
    obtain ⟨a, hstep, _⟩ := hq
    exact hstep.effects.config.trans ih

theorem listener (h : Stays t u) {i : Nat} {j : Job} (hj : t.jobs[i]? = some j) :
    ∃ j', u.jobs[i]? = some j' ∧ j'.listener = j.listener := by
  induction h with
  | refl => exact ⟨j, hj, rfl⟩
  | tail _ hq ih =>
    obtain ⟨a, hstep, _⟩ := hq
    obtain ⟨j₁, hj₁, hl₁⟩ := ih
    obtain ⟨j₂, hj₂, hl₂, _⟩ := hstep.effects.listener hj₁
    exact ⟨j₂, hj₂, hl₂.trans hl₁⟩

theorem length_batches (h : Stays t u) : t.batches.length ≤ u.batches.length := by
  induction h with
  | refl => exact Nat.le_refl _
  | tail _ hq ih =>
    obtain ⟨a, hstep, _⟩ := hq
    exact Nat.le_trans ih hstep.length_batches

theorem listener_of_slot (h : Stays t u) (hn : n < t.batches.length) {i place : Nat} {j : Job}
    (hj : u.jobs[i]? = some j) (hl : j.listener = .slot n place) :
    ∃ k, t.jobs[i]? = some k ∧ k.listener = .slot n place := by
  induction h generalizing j with
  | refl => exact ⟨j, hj, hl⟩
  | tail huv hq ih =>
    obtain ⟨a, hstep, _⟩ := hq
    obtain ⟨k, hk, hlk⟩ := hstep.listener_of_slot (Nat.lt_of_lt_of_le hn (length_batches huv)) hj hl
    exact ih hk hlk

/-- While nothing is shown, the display stays as it is. -/
theorem same_of_closed (h : Stays t u) (ht : Sound (t.ledger 0)) (hnone : t.session.current = none) :
    SameDisplay t u := by
  induction h with
  | refl => exact ⟨rfl, rfl, rfl, rfl, rfl⟩
  | tail huv hq ih =>
    refine ih.trans (hq.same (sound huv ht) ?_)
    intro i place b o _
    rw [isCurrent, current huv ht, hnone]

end Stays

/-- An act that shows and closes nothing, and in which no job lands for the diagnostic but those from `lo` up
to `hi`. -/
def Undisturbed (shown : Shown) (lo hi : Nat) (s t : Service) : Prop :=
  Quiet s t ∧ ∀ i place b o, LandsIn s t i place b o → b.shown.handle = shown.handle → lo ≤ i ∧ i < hi

/-- Acts one after the other that leave a showing undisturbed. -/
abbrev StaysUndisturbed (shown : Shown) (lo hi : Nat) : Service → Service → Prop :=
  Relation.ReflTransGen (Undisturbed shown lo hi)

theorem StaysUndisturbed.stays {lo hi : Nat} (h : StaysUndisturbed shown lo hi t u) : Stays t u :=
  h.lift id fun _ _ hund => hund.1

theorem Step.closed (h : Step s a t) (hc : s.Closing a) : t.session = {} := by
  cases h with
  | @move m hm =>
    cases m with
    | close => rfl
    | toggle d =>
      have hopen : s.session.current.isSome = true := hc
      rw [make, toggle, if_pos hopen]
      rfl
    | _ => exact hc.elim
  | event => exact hc.elim

theorem isCurrent_eq (h : s.session.current = some shown) (d : Shown) :
    s.isCurrent d = decide (shown.handle = d.handle) := by
  rw [isCurrent, h]

/-- A diagnostic is on display with these segments, and the latest rendering is theirs, or the one from before the
diagnostic was shown if its code has too many digits. -/
structure Displays (u : Service) (before : Option View) (shown : Shown) (segments : List Segment) : Prop where
  current : u.session.current = some shown
  segments_eq : u.session.segments = segments
  view : View.Follows before shown.diagnostic segments u.config.title u.session.view

theorem Displays.of_same (h : Displays u before shown segments) (hsame : SameDisplay u v)
    (hconfig : v.config = u.config) : Displays v before shown segments :=
  ⟨hsame.current.trans h.current, hsame.segments.trans h.segments_eq, by rw [hsame.view, hconfig]; exact h.view⟩

theorem Displays.refreshed {segments' : List Segment} {o : Outcome} (h : Displays u before shown segments)
    (hr : Refreshed u v shown segments' o) (hconfig : v.config = u.config) : Displays v before shown segments' :=
  ⟨hr.current.trans h.current, hr.segments_eq, by rw [hconfig]; exact h.view.trans hr.view⟩

theorem Quiet.config (h : Quiet u v) : v.config = u.config :=
  Stays.config (.single h)

/-- While a batch is the only one of its diagnostic, an act shows one more answer of the batch, or it changes neither
the answers nor the display. -/
theorem Undisturbed.answers {lo hi : Nat} (h : Undisturbed shown lo hi u v) (hs : Sound (u.ledger 0))
    (hfill : Filling n shown segments missing (u.ledger 0))
    (hown : ∀ (i : Nat) (j : Job), lo ≤ i → i < hi → u.jobs[i]? = some j → ∃ place, j.listener = .slot n place)
    (hcur : u.session.current = some shown) :
    (∃ place o, answerTo u.jobs n place = none ∧ answerTo v.jobs n place = some o ∧
      (∀ p, p ≠ place → answerTo v.jobs n p = answerTo u.jobs n p) ∧
      Refreshed u v shown (fill (answerTo v.jobs n) segments) o) ∨
    SameDisplay u v ∧ answerTo v.jobs n = answerTo u.jobs n := by
  obtain ⟨hq, honly⟩ := h
  obtain ⟨a, hstep, _⟩ := id hq
  have hfill' : Filling n shown segments missing (v.ledger 0) := hstep.filling hfill
  have hbatch {w : Service} (hw : Filling n shown segments missing (w.ledger 0)) {b : Batch}
      (hb : w.batches[n]? = some b) : b.shown = shown ∧ b.slots = fill (answerTo w.jobs n) segments := by
    have hshown := congrArg Batch.shown (hw.bare_eq hb)
    have hslots := congrArg Batch.slots (hw.bare_eq hb)
    exact ⟨hshown, hslots⟩
  -- no slot of the batch gets a job after the batch was opened
  have hfrom {place : Nat} (i : Nat) (j' : Job) (hj' : v.jobs[i]? = some j') (hl' : j'.listener = .slot n place) :
      ∃ j, u.jobs[i]? = some j ∧ j.listener = .slot n place :=
    hstep.listener_of_slot (by simpa [ledger] using hfill.lt) hj' hl'
  by_cases hex : ∃ i place b o, LandsIn u v i place b o ∧ b.shown.handle = shown.handle
  · -- it is one of the batch's own jobs, so the slots of the batch are shown
    obtain ⟨i, place, b, o, ⟨m, j, j', hj, hl, hnone, hb, hj', ho⟩, hhandle⟩ := hex
    obtain ⟨hlo, hhi⟩ := honly i place b o ⟨m, j, j', hj, hl, hnone, hb, hj', ho⟩ hhandle
    obtain ⟨place', hl'⟩ := hown i j hlo hhi hj
    cases hl.symm.trans hl'
    obtain ⟨b', hb', _, _, hrefresh, _⟩ := (hstep.lands hj hnone hj' ho).slot hl hb
    obtain ⟨hbshown, _⟩ := hbatch hfill hb
    obtain ⟨_, hslots'⟩ := hbatch hfill' hb'
    rw [hbshown, hslots'] at hrefresh
    obtain ⟨j₁, hj₁, hl₁, _⟩ := hstep.effects.listener hj
    cases Eq.trans (Eq.symm hj') hj₁
    have habout : a.job? = some i := by
      by_contra hne
      cases Eq.trans (Eq.symm hj') (hstep.effects.other hne hj)
      cases Eq.trans (Eq.symm hnone) ho
    refine .inl ⟨place, o, (answerTo_eq_outcome hfill.once hj hl).trans hnone,
      (answerTo_eq_outcome hfill'.once hj' (hl₁.trans hl)).trans ho, ?_, hrefresh (by simp [isCurrent_eq hcur])⟩
    intro p hp
    refine answerTo_congr hfill.once hfill'.once ?_ hfrom
    intro i' k hk hlk
    have hne : a.job? ≠ some i' := by
      rw [habout]
      rintro ⟨⟩
      cases hj.symm.trans hk
      cases hl.symm.trans hlk
      exact hp rfl
    exact ⟨k, hstep.effects.other hne hk, hlk, rfl⟩
  · right
    constructor
    · refine hq.same hs ?_
      intro i place b o hin
      rw [isCurrent_eq hcur]
      exact decide_eq_false fun hhandle => hex ⟨i, place, b, o, hin, hhandle.symm⟩
    · funext place
      refine answerTo_congr hfill.once hfill'.once ?_ hfrom
      intro i j hj hl
      obtain ⟨j', hj', hl', _⟩ := hstep.effects.listener hj
      refine ⟨j', hj', hl'.trans hl, ?_⟩
      cases ho : j.outcome with
      | some o =>
        obtain ⟨j₁, hj₁, ho₁, _⟩ := hstep.effects.outcome hj ho
        cases Eq.trans (Eq.symm hj') hj₁
        exact ho₁
      | none =>
        -- had it come to an outcome, it would have landed for this diagnostic
        cases ho' : j'.outcome with
        | none => rfl
        | some o =>
          obtain ⟨b, hb, _⟩ := hfill.exists_batch
          obtain ⟨hbshown, _⟩ := hbatch hfill hb
          exact absurd ⟨i, place, b, o, ⟨n, j, j', hj, hl, ho, hb, hj', ho'⟩, by rw [hbshown]⟩ hex

/-- The errors among the answers for these places. -/
def answerErrors (answer : Nat → Option Outcome) (places : List Nat) : List Text :=
  places.filterMap fun place => (answer place).bind (·.error)

/-- One more answer is at most one more error. -/
theorem answerErrors_perm {answer answer' : Nat → Option Outcome} {places : List Nat} {place : Nat} {o : Outcome}
    (hnodup : places.Nodup) (hmem : place ∈ places) (hnone : answer place = none) (hplace : answer' place = some o)
    (hother : ∀ p, p ≠ place → answer' p = answer p) :
    (answerErrors answer' places).Perm (answerErrors answer places ++ o.error.toList) := by
  obtain ⟨l, r, rfl⟩ := List.append_of_mem hmem
  have hsame (ps : List Nat) (hps : place ∉ ps) : answerErrors answer' ps = answerErrors answer ps := by
    refine List.filterMap_congr fun p hp => ?_
    rw [hother p fun h => hps (h ▸ hp)]
  simp only [List.nodup_append, List.nodup_cons] at hnodup
  have hl : place ∉ l := fun h => hnodup.2.2 place h place List.mem_cons_self rfl
  have hr : place ∉ r := hnodup.2.1.1
  have split (answer : Nat → Option Outcome) : answerErrors answer (l ++ place :: r)
      = answerErrors answer l ++ (((answer place).bind (·.error)).toList ++ answerErrors answer r) := by
    unfold answerErrors
    rw [List.filterMap_append, List.filterMap_cons]
    cases (answer place).bind (·.error) <;> rfl
  rw [split, split, hsame l hl, hsame r hr, hnone, hplace, List.append_assoc]
  exact List.perm_append_comm.append_left _

/-- A diagnostic is on display with what a batch has come to. -/
structure Answered (u : Service) (before : Option View) (n : Nat) (shown : Shown) (segments : List Segment) : Prop where
  displays : Displays u before shown (fill (answerTo u.jobs n) segments)
  errors : u.session.errors.Perm (answerErrors (answerTo u.jobs n) (codePlaces segments))

/-- While a batch is the only one of its diagnostic, what is on display is what it has come to. -/
theorem Undisturbed.answered {lo hi : Nat} (h : Undisturbed shown lo hi u v) (hs : Sound (u.ledger 0))
    (hfill : Filling n shown segments missing (u.ledger 0))
    (hown : ∀ (i : Nat) (j : Job), lo ≤ i → i < hi → u.jobs[i]? = some j → ∃ place, j.listener = .slot n place)
    (hu : Answered u before n shown segments) : Answered v before n shown segments := by
  obtain ⟨a, hstep, _⟩ := id h.1
  have hfill' : Filling n shown segments missing (v.ledger 0) := hstep.filling hfill
  rcases h.answers hs hfill hown hu.displays.current with ⟨place, o, hnone, hplace, hother, hr⟩ | ⟨hsame, hanswer⟩
  · refine ⟨hu.displays.refreshed hr h.1.config, ?_⟩
    have hmem : place ∈ codePlaces segments := by
      by_contra hno
      cases hplace.symm.trans (hfill'.answerTo_eq_none hno)
    rw [hr.errors]
    exact (hu.errors.append_right _).trans
      (answerErrors_perm (nodup_codePlaces _) hmem hnone hplace hother).symm
  · refine ⟨?_, ?_⟩
    · rw [hanswer]
      exact hu.displays.of_same hsame h.1.config
    · rw [hanswer, hsame.errors]
      exact hu.errors

/-- The jobs that a showing asks for are each for the type of one of its segments. -/
def ShowingJobs (s t : Service) (segments : List Segment) : Prop :=
  ∀ (i : Nat) (j : Job), s.jobs.length ≤ i → t.jobs[i]? = some j → ∃ place seg, segments[place]? = some seg ∧
    seg.isCode = true ∧ j.content = seg.content ∧ j.listener = .slot s.batches.length place

theorem Presented.showingJobs (h : Presented s t shown) :
    ShowingJobs s t (Message.segments shown.diagnostic.message) := by
  intro i j hlo hj
  rcases h.batch with hjobs | ⟨js, _, hjobs, hasked, _⟩
  · rw [hjobs] at hj
    have := (List.getElem?_eq_some_iff.mp hj).1
    omega
  · rw [hjobs, List.getElem?_append_right hlo] at hj
    obtain ⟨place, seg, hp, hseg, hcontent, hl, _⟩ := hasked.job _ _ hj
    obtain ⟨seg', hseg', hcode⟩ := mem_codePlaces.mp (List.mem_of_getElem? hp)
    cases hseg.symm.trans hseg'
    exact ⟨place, seg, hseg, hcode, hcontent, hl⟩

theorem Presented.displays (h : Presented s t shown) (hconfig : t.config = s.config) :
    Displays t s.session.view shown (Message.segments shown.diagnostic.message) ∧ t.session.errors = [] := by
  have hcurrent := congrArg Session.current h.session
  have hsegments := congrArg Session.segments h.session
  have hview := congrArg Session.view h.session
  have herrors := congrArg Session.errors h.session
  refine ⟨⟨hcurrent, hsegments, ?_⟩, herrors⟩
  rw [hconfig]
  exact View.follows_iff.mpr hview

/-- A showing that asks for nothing stays as it is, since nothing lands for it. -/
theorem Presented.undisturbed_of_no_jobs (h : Presented s t shown) (hconfig : t.config = s.config)
    (ht : Sound (t.ledger 0)) (hjobs : t.jobs = s.jobs)
    (hu : StaysUndisturbed shown s.jobs.length t.jobs.length t u) :
    Displays u s.session.view shown (Message.segments shown.diagnostic.message) ∧ u.session.errors = [] := by
  induction hu with
  | refl => exact h.displays hconfig
  | @tail v w huv hund ih =>
    obtain ⟨hdisplays, herrors⟩ := ih
    obtain ⟨hq, honly⟩ := hund
    have hsame : SameDisplay v w := by
      refine hq.same ((StaysUndisturbed.stays huv).sound ht) ?_
      intro i place b o hin
      rw [isCurrent_eq hdisplays.current]
      refine decide_eq_false fun hhandle => ?_
      have hrange := honly i place b o hin hhandle.symm
      rw [hjobs] at hrange
      omega
    exact ⟨hdisplays.of_same hsame hq.config, hsame.errors.trans herrors⟩

/-- The jobs of a showing stay for its batch. -/
theorem ShowingJobs.listener (h : ShowingJobs s t segments) (hu : Stays t u) {i : Nat} {j : Job}
    (hlo : s.jobs.length ≤ i) (hhi : i < t.jobs.length) (hj : u.jobs[i]? = some j) :
    ∃ place, j.listener = .slot s.batches.length place := by
  obtain ⟨place, _, _, _, _, hl⟩ := h i t.jobs[i] hlo (List.getElem?_eq_getElem hhi)
  obtain ⟨j', hj', hl'⟩ := hu.listener (List.getElem?_eq_getElem hhi)
  cases hj.symm.trans hj'
  exact ⟨place, hl'.trans hl⟩

/-- As long as no job of another showing lands for the diagnostic, its own jobs alone decide what is on display. -/
theorem Presented.answered (h : Presented s t shown) (hconfig : t.config = s.config) (hs : Sound (s.ledger 0))
    (ht : Sound (t.ledger 0)) (hu : StaysUndisturbed shown s.jobs.length t.jobs.length t u) :
    let answer := answerTo (u.jobs.take t.jobs.length) s.batches.length
    let segments := Message.segments shown.diagnostic.message
    Displays u s.session.view shown (fill answer segments) ∧
      u.session.errors.Perm (answerErrors answer (codePlaces segments)) := by
  intro answer segments
  rcases h.batch with hjobs | ⟨js, missing, hjobs, hasked, hfill⟩
  · have hnone : ∀ place, answer place = none := by
      intro place
      refine answerTo_eq_none ?_
      intro i j hj hl
      rw [List.getElem?_take] at hj
      split at hj
      · rename_i hlt
        have hi : t.jobs[i]? = some t.jobs[i] := List.getElem?_eq_getElem hlt
        obtain ⟨j', hj', hl'⟩ := hu.stays.listener hi
        cases hj.symm.trans hj'
        exact hs.listener_ne i _ place (hjobs ▸ hi) (hl'.symm.trans hl)
      · cases hj
    obtain ⟨hdisplays, herrors⟩ := h.undisturbed_of_no_jobs hconfig ht hjobs hu
    have hno : answerErrors answer (codePlaces segments) = [] := by simp [answerErrors, hnone]
    rw [fill_none hnone, hno, herrors]
    exact ⟨hdisplays, .refl _⟩
  · have hfilled : Filling s.batches.length shown segments missing (u.ledger 0) ∧
        Answered u s.session.view s.batches.length shown segments := by
      clear answer
      induction hu with
      | refl =>
        have hnone := hasked.answerTo_eq_none (nodup_codePlaces _) hs.listener_ne
        obtain ⟨hdisplays, herrors⟩ := h.displays hconfig
        refine ⟨hfill, ?_, ?_⟩
        · rw [hjobs, fill_none hnone]
          exact hdisplays
        · have hno : answerErrors (answerTo t.jobs s.batches.length) (codePlaces segments) = [] := by
            simp [answerErrors, hjobs, hnone]
          rw [hno, herrors]
      | tail huv hund ih =>
        obtain ⟨hf, hd⟩ := ih
        obtain ⟨_, hstep, _⟩ := hund.1
        have hstays := StaysUndisturbed.stays huv
        exact ⟨hstep.filling hf, hund.answered (hstays.sound ht) hf (fun _ _ => h.showingJobs.listener hstays) hd⟩
    obtain ⟨_, hd⟩ := hfilled
    -- the batch has no other jobs than those that the showing asked for
    have htake : answer = answerTo u.jobs s.batches.length := by
      refine answerTo_take ?_
      intro i place j hj hl
      obtain ⟨k, hk, _⟩ := hu.stays.listener_of_slot (by simpa [ledger] using hfill.lt) hj hl
      exact (List.getElem?_eq_some_iff.mp hk).1
    rw [htake]
    exact ⟨hd.displays, hd.errors⟩

theorem Presented.undisturbed (h : Presented s t shown) (hconfig : t.config = s.config) (hs : Sound (s.ledger 0))
    (ht : Sound (t.ledger 0)) (hu : StaysUndisturbed shown s.jobs.length t.jobs.length t u) :
    Displays u s.session.view shown (fill (answerTo (u.jobs.take t.jobs.length) s.batches.length)
      (Message.segments shown.diagnostic.message)) :=
  (h.answered hconfig hs ht hu).1

/-- After a diagnostic with a message was shown, it is on display until another is shown or it is closed. A job that lands
changes the display if and only if its batch is for a diagnostic of the same handle. As long as no earlier showing of
that lands, what is on display are the segments with what the showing's own jobs have come to. -/
theorem latest_showing_is_on_display {s₀ : Service} (h₀ : s₀.IsFresh) {as : List Act} (h : Course s₀ as s)
    (hstep : Step s a t) :
    (s.Closing a → t.session = {} ∧ ∀ u, Stays t u → SameDisplay t u) ∧
    ∀ shown, s.Showing shown a → shown.diagnostic.message ≠ [] →
      let segments := Message.segments shown.diagnostic.message
      Displays t s.session.view shown segments ∧ t.session.errors = [] ∧ ShowingJobs s t segments ∧
        (∀ u, Stays t u → u.session.current = some shown ∧ ∀ v, Quiet u v →
          (∀ i place b o, LandsIn u v i place b o →
            if b.shown.handle = shown.handle then Refreshed u v b.shown (b.put place o).slots o
            else SameDisplay u v) ∧
          ((∀ i place b o, ¬ LandsIn u v i place b o) → SameDisplay u v)) ∧
        ∀ u, StaysUndisturbed shown s.jobs.length t.jobs.length t u →
          Displays u s.session.view shown
            (fill (answerTo (u.jobs.take t.jobs.length) s.batches.length) segments) := by
  have hs : Sound (s.ledger 0) := h.sound h₀.sound
  have ht : Sound (t.ledger 0) := hstep.sound hs
  constructor
  · intro hc
    have hclosed := hstep.closed hc
    exact ⟨hclosed, fun u hu => hu.same_of_closed ht (by rw [hclosed])⟩
  · intro shown hshow hne segments
    have hp := hstep.presented hs hshow hne
    have hconfig : t.config = s.config := hstep.effects.config
    obtain ⟨hdisplays, herrors⟩ := hp.displays hconfig
    refine ⟨hdisplays, herrors, hp.showingJobs, ?_, fun u hu => hp.undisturbed hconfig hs ht hu⟩
    intro u hu
    have hcur : u.session.current = some shown := (hu.current ht).trans hdisplays.current
    refine ⟨hcur, fun v hq => ⟨?_, ?_⟩⟩
    · intro i place b o hin
      obtain ⟨hrefresh, hsame⟩ := hin.display hq
      rw [isCurrent_eq hcur] at hrefresh hsame
      split
      · rename_i hhandle
        exact hrefresh (decide_eq_true hhandle.symm)
      · rename_i hhandle
        exact hsame (decide_eq_false fun heq => hhandle heq.symm)
    · intro hno
      exact hq.same (hu.sound ht) fun i place b o hin => absurd hin (hno i place b o)

/-- A diagnostic is shown, closed and shown again: the type that the first showing asked for is not formatted in
time, and takes the place of the type that the second showing has formatted. -/
theorem earlier_showing_lands :
    let message : Text := "Type '{ name: string; size: number }' is wrong."
    let shown : Shown := ⟨0, { message }⟩
    let segments := Message.segments message
    let s₀ := create .default { fixed := some "prettier" } (fun _ => none)
      fun n _ => { stdout := "type __TSErrorsType__ = string;\n", delay := if n = 0 then 9000 else 0 }
    let s₁ := runSteps 1 (s₀.display shown (some true)).1
    let s := s₁.close
    let t := (s.display shown (some true)).1
    let u := t.step?.getD t
    let v := u.step?.getD u
    s₀.IsFresh ∧ (∀ w, Stays s w → SameDisplay s w) ∧
      Displays u s.session.view shown (fill (answerTo (u.jobs.take t.jobs.length) s.batches.length) segments) ∧
      (∃ b o, LandsIn u v 0 1 b o ∧ b.shown = shown ∧ Refreshed u v shown (b.put 1 o).slots o) ∧
      u.session.segments ≠ v.session.segments := by
  intro message shown segments s₀ s₁ s t u v
  have hfresh : s₀.IsFresh := isFresh_create ..
  have hstep₀ : Step s₀ (.move (.display shown (some true))) (s₀.display shown (some true)).1 :=
    .move (m := .display shown (some true)) trivial
  obtain ⟨as, has⟩ := leads_runSteps 1 (s₀.display shown (some true)).1
  have hs₁ : Course s₀ _ s₁ := (Course.single hstep₀).append has
  have hclose : Step s₁ (.move .close) s := .move (m := .close) trivial
  have hshow : Step s (.move (.display shown (some true))) t := .move (m := .display shown (some true)) trivial
  have hne : shown.diagnostic.message ≠ [] := by decide
  obtain ⟨hclosed, _⟩ := latest_showing_is_on_display hfresh hs₁ hclose
  obtain ⟨_, hshown⟩ := latest_showing_is_on_display hfresh (hs₁.snoc hclose) hshow
  obtain ⟨_, _, _, hlanding, hundisturbed⟩ := hshown shown rfl hne
  have hfirst : Quiet t u := quiet_of_step? (by decide +kernel) (step?_eq_some_getD (by decide +kernel))
  have hsecond : Quiet u v := quiet_of_step? (by decide +kernel) (step?_eq_some_getD (by decide +kernel))
  have hund : Undisturbed shown s.jobs.length t.jobs.length t u := by
    refine ⟨hfirst, ?_⟩
    rintro i place b o ⟨n, j, j', hj, _, _, _, hj', ho⟩ _
    have hlo : s.jobs.length = 1 := by decide +kernel
    have hhi := (List.getElem?_eq_some_iff.mp hj).1
    have hwait : u.jobs[0]?.all (fun j => j.outcome = none) = true := by decide +kernel
    cases i with
    | zero =>
      rw [hj'] at hwait
      simp [ho] at hwait
    | succ i => omega
  obtain ⟨_, hnext⟩ := hlanding u (.single hfirst)
  obtain ⟨hlands, _⟩ := hnext v hsecond
  refine ⟨hfresh, (hclosed trivial).2, hundisturbed u (.single hund), ?_, by decide +kernel⟩
  obtain ⟨j, hj, hl, hnone⟩ : ∃ j, u.jobs[0]? = some j ∧ j.listener = .slot 0 1 ∧ j.outcome = none := by
    have h : (u.jobs[0]?.any fun j => j.listener = .slot 0 1 ∧ j.outcome = none) = true := by decide +kernel
    simpa [Option.any_eq_true] using h
  obtain ⟨j', hj', hdone⟩ : ∃ j', v.jobs[0]? = some j' ∧ j'.outcome.isSome = true := by
    have h : (v.jobs[0]?.any fun j => j.outcome.isSome) = true := by decide +kernel
    simpa [Option.any_eq_true] using h
  obtain ⟨b, hb, hbshown⟩ : ∃ b, u.batches[0]? = some b ∧ b.shown = shown := by
    have h : (u.batches[0]?.any fun b => b.shown = shown) = true := by decide +kernel
    simpa [Option.any_eq_true] using h
  obtain ⟨o, ho⟩ := Option.isSome_iff_exists.mp hdone
  have hin : LandsIn u v 0 1 b o := ⟨0, j, j', hj, hl, hnone, hb, hj', ho⟩
  have hr := hlands 0 1 b o hin
  rw [hbshown, if_pos rfl] at hr
  exact ⟨b, o, hin, hbshown, hr⟩

end Legible.Service
