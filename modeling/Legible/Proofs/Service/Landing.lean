import Legible.Proofs.Render.View
import Legible.Proofs.Service.Jobs
/-!
# What lands on the display

What is shown changes in two ways only: the program shows or closes a diagnostic, or a job comes to its
outcome and its listener is a slot of a batch whose diagnostic is the one on display. An act does at most
one of the two, and lets at most one job come to its outcome.
-/

namespace Legible.Service

open Ledger

variable {a : Act} {c₀ c d : Ledger} {s t : Service}

/-- An act changes no job but the one it is about. -/
theorem Effects.other (h : Effects a c₀ c d) {i : Nat} {j : Job} (hi : a.job? ≠ some i) (hj : c.jobs[i]? = some j) :
    d.jobs[i]? = some j := by
  induction h with
  | refl => exact hj
  | tail _ heff ih =>
    obtain ⟨j', hj', hturn⟩ := heff.turn ih
    cases hturn with
    | keep => exact hj'
    | task ha => exact absurd ha hi
    | fix ha => exact absurd ha hi

/-- A job keeps its content and its listener. -/
theorem Effects.listener (h : Effects a c₀ c d) {i : Nat} {j : Job} (hj : c.jobs[i]? = some j) :
    ∃ j', d.jobs[i]? = some j' ∧ j'.listener = j.listener ∧ j'.content = j.content := by
  induction h with
  | refl => exact ⟨j, hj, rfl, rfl⟩
  | tail _ heff ih =>
    obtain ⟨j₁, hj₁, hl, hc⟩ := ih
    obtain ⟨j₂, hj₂, hturn⟩ := heff.turn hj₁
    refine ⟨j₂, hj₂, ?_⟩
    cases hturn <;> exact ⟨hl, hc⟩

/-- An outcome is final. -/
theorem Effects.outcome (h : Effects a c₀ c d) {i : Nat} {j : Job} {o : Outcome} (hj : c.jobs[i]? = some j)
    (ho : j.outcome = some o) : ∃ j', d.jobs[i]? = some j' ∧ j'.outcome = some o ∧ j'.listener = j.listener := by
  induction h with
  | refl => exact ⟨j, hj, ho, rfl⟩
  | tail _ heff ih =>
    obtain ⟨j₁, hj₁, ho₁, hl⟩ := ih
    obtain ⟨j₂, hj₂, hturn⟩ := heff.turn hj₁
    refine ⟨j₂, hj₂, ?_⟩
    cases hturn with
    | keep => exact ⟨ho₁, hl⟩
    | task => exact ⟨ho₁, hl⟩
    | fix _ hd => exact nomatch hd.symm.trans (congrArg Option.isSome ho₁)

/-- The settings stay. -/
theorem Effects.config (h : Effects a c₀ c d) : d.config = c.config := by
  induction h with
  | refl => rfl
  | tail _ heff ih =>
    rw [← ih]
    cases heff with
    | complete => exact config_complete ..
    | _ => rfl

theorem Act.Shows.job? {shown : Shown} (h : a.Shows shown) : a.job? = none := by
  cases a with
  | move m => cases m <;> first | rfl | exact h.elim
  | event e =>
    cases e with
    | rested | wake => rfl
    | _ => exact h.elim

theorem Act.Closes.job? (h : a.Closes) : a.job? = none := by
  cases a with
  | move m => cases m <;> first | rfl | exact h.elim
  | event => exact h.elim

/-! ## Acts about a job -/

/-- What is shown is as it was, and so is the outcome of a job. -/
structure Still (n : Nat) (c d : Ledger) : Prop where
  length : d.jobs.length = c.jobs.length
  display : d.toDisplay = c.toDisplay
  job : ∀ j, c.jobs[n]? = some j → ∃ j', d.jobs[n]? = some j' ∧ j'.outcome = j.outcome ∧ j'.listener = j.listener

/-- A job has come to this outcome, and its listener was told. -/
structure Lands (n : Nat) (j : Job) (o : Outcome) (c d : Ledger) : Prop where
  length : d.jobs.length = c.jobs.length
  before : c.jobs[n]? = some j
  undone : j.outcome = none
  after : ∃ j', d.jobs[n]? = some j' ∧ j'.outcome = some o
  display : d.toDisplay = c.toDisplay.tell j.listener o

theorem Effect.of_job (h : Effect a c₀ c d) {n : Nat} (ha : a.job? = some n) :
    Still n c d ∨ ∃ j o, Lands n j o c d := by
  have same (hjobs : d.jobs = c.jobs) (hd : d.toDisplay = c.toDisplay) : Still n c d ∨ ∃ j o, Lands n j o c d :=
    .inl ⟨by rw [hjobs], hd, fun j hj => ⟨j, hjobs ▸ hj, rfl, rfl⟩⟩
  cases h with
  | ask ha' | batch _ ha' => exact nomatch ha'.symm.trans ha
  | display hs => exact nomatch hs.job?.symm.trans ha
  | close hc => exact nomatch hc.job?.symm.trans ha
  | store | clear | run | push => exact same rfl rfl
  | @task m i t ha' hi =>
    cases ha'.symm.trans ha
    refine .inl ⟨List.length_modify .., rfl, ?_⟩
    intro j hj
    exact ⟨{ j with task := t }, by simp [Ledger.modifyJob, hj], rfl, rfl⟩
  | @complete m i o ha' hi hdone =>
    cases ha'.symm.trans ha
    refine .inr ⟨i, o, ?_, hi, by simpa [Promise.done] using hdone, ?_, ?_⟩
    · rw [jobs_complete, List.length_modify]
    · refine ⟨{ i with toPromise := i.fix o }, ?_, rfl⟩
      rw [jobs_complete, List.getElem?_modify_eq, hi]
      simp [Job.completed, hdone]
    · rw [complete_of_undone hi hdone]
      rfl

theorem Still.trans {n : Nat} {e : Ledger} (h : Still n c d) (h' : Still n d e) : Still n c e := by
  refine ⟨h'.length.trans h.length, h'.display.trans h.display, ?_⟩
  intro j hj
  obtain ⟨j₁, hj₁, ho₁, hl₁⟩ := h.job j hj
  obtain ⟨j₂, hj₂, ho₂, hl₂⟩ := h'.job j₁ hj₁
  exact ⟨j₂, hj₂, ho₂.trans ho₁, hl₂.trans hl₁⟩

/-- An act about a job adds no job. It leaves what is shown and the outcome of the job as they are, or it lets
the job come to an outcome and tells its listener. -/
theorem Effects.of_job (h : Effects a c₀ c d) {n : Nat} (ha : a.job? = some n) :
    Still n c d ∨ ∃ j o, Lands n j o c d := by
  induction h with
  | refl => exact .inl ⟨rfl, rfl, fun j hj => ⟨j, hj, rfl, rfl⟩⟩
  | @tail d₁ d₂ _ heff ih =>
    rcases ih with hstill | ⟨j, o, hlands⟩ <;> rcases heff.of_job ha with hstill' | ⟨j', o', hlands'⟩
    · exact .inl (hstill.trans hstill')
    · obtain ⟨hn, _⟩ := List.getElem?_eq_some_iff.mp hlands'.before
      obtain ⟨j, hj⟩ : ∃ j, c.jobs[n]? = some j := ⟨_, List.getElem?_eq_getElem (hstill.length ▸ hn)⟩
      obtain ⟨j₁, hj₁, ho₁, hl₁⟩ := hstill.job j hj
      cases hlands'.before.symm.trans hj₁
      refine .inr ⟨j, o', hlands'.length.trans hstill.length, hj, ho₁ ▸ hlands'.undone, hlands'.after, ?_⟩
      rw [hlands'.display, hstill.display, hl₁]
    · obtain ⟨j₁, hj₁, ho₁⟩ := hlands.after
      obtain ⟨j₂, hj₂, ho₂, _⟩ := hstill'.job j₁ hj₁
      exact .inr ⟨j, o, hstill'.length.trans hlands.length, hlands.before, hlands.undone,
        ⟨j₂, hj₂, ho₂.trans ho₁⟩, hstill'.display.trans hlands.display⟩
    · -- a job comes to an outcome once
      obtain ⟨j₁, hj₁, ho₁⟩ := hlands.after
      cases hlands'.before.symm.trans hj₁
      exact nomatch hlands'.undone.symm.trans ho₁

/-! ## Acts of the program -/

/-- An act that shows and closes nothing, and is about no job, only opens batches. -/
theorem Effects.of_program (h : Effects a c₀ c d) (ha : a.job? = none) (hs : ∀ shown, ¬ a.Shows shown)
    (hc : ¬ a.Closes) : ∃ bs, d.toDisplay = { c.toDisplay with batches := c.batches ++ bs } := by
  induction h with
  | refl => exact ⟨[], by rw [List.append_nil]⟩
  | @tail d₁ d₂ _ heff ih =>
    obtain ⟨bs, ih⟩ := ih
    have same (hd : d₂.toDisplay = d₁.toDisplay) :
        ∃ bs, d₂.toDisplay = { c.toDisplay with batches := c.batches ++ bs } := ⟨bs, hd.trans ih⟩
    cases heff with
    | batch b =>
      refine ⟨bs ++ [b], ?_⟩
      change d₁.toDisplay.openBatch b = _
      rw [ih]
      simp only [Display.openBatch, List.append_assoc]
    | display hs' => exact absurd hs' (hs _)
    | close hc' => exact absurd hc' hc
    | task ha' | push ha' | complete ha' => cases ha.symm.trans ha'
    | ask | store | clear | run => exact same rfl

/-! ## Steps -/

/-- The act shows this diagnostic. -/
def Showing (s : Service) (shown : Shown) : Act → Prop
  | .move (.display d _) | .move (.displayAndAwait d _) => d = shown
  | .move (.toggle d) => s.session.current = none ∧ d = shown
  | .event (.wake (.task n)) => s.waits[n]? = some (.ready shown)
  | _ => False

/-- The act closes what is shown. -/
def Closing (s : Service) : Act → Prop
  | .move .close => True
  | .move (.toggle _) => s.session.current.isSome = true
  | _ => False

/-- The act closes what is shown, or shows a diagnostic that has a message. -/
def Turns (s : Service) (a : Act) : Prop :=
  s.Closing a ∨ ∃ shown, s.Showing shown a ∧ shown.diagnostic.message ≠ []

/-- A job comes to its outcome in an act: its listener is told, and nothing else happens to the display. -/
theorem Step.lands (h : Step s a t) {i : Nat} {j j' : Job} {o : Outcome} (hj : s.jobs[i]? = some j)
    (hnone : j.outcome = none) (hj' : t.jobs[i]? = some j') (ho : j'.outcome = some o) :
    Lands i j o (s.ledger 0) (t.ledger 0) := by
  by_cases ha : a.job? = some i
  · rcases h.effects.of_job ha with hstill | ⟨j₁, o₁, hlands⟩
    · obtain ⟨j₂, hj₂, ho₂, _⟩ := hstill.job j hj
      cases hj'.symm.trans hj₂
      exact nomatch ho.symm.trans (ho₂.trans hnone)
    · cases hj.symm.trans hlands.before
      obtain ⟨j₂, hj₂, ho₂⟩ := hlands.after
      cases hj'.symm.trans hj₂
      cases ho.symm.trans ho₂
      exact ⟨hlands.length, hlands.before, hlands.undone, ⟨j', hj₂, ho₂⟩, hlands.display⟩
  · cases hj'.symm.trans (h.effects.other ha hj)
    exact nomatch ho.symm.trans hnone

/-- An act that could turn the display and does not changes nothing that counts. -/
theorem Step.of_shows (h : Step s a t) (hq : ¬ s.Turns a) (hs : (∃ shown, a.Shows shown) ∨ a.Closes) :
    (t.ledger 0).toDisplay = (s.ledger 0).toDisplay ∧ t.jobs = s.jobs := by
  have of_ledger (hand : Multiset Event) (u : Service) (hu : u.ledger hand = s.ledger hand) :
      (u.ledger 0).toDisplay = (s.ledger 0).toDisplay ∧ u.jobs = s.jobs := by
    have hd := congrArg Ledger.toDisplay hu
    have hj := congrArg Ledger.jobs hu
    exact ⟨hd, hj⟩
  have hclosing : ¬ s.Closing a := fun hc => hq (.inl hc)
  have empty (shown : Shown) (hshow : s.Showing shown a) : shown.diagnostic.message = [] := by
    by_contra hne
    exact hq (.inr ⟨shown, hshow, hne⟩)
  cases h with
  | @move m hm =>
    cases m with
    | display shown format =>
      refine of_ledger 0 _ ?_
      rw [make, display_of_empty (empty shown rfl)]
    | toggle shown =>
      have hopen : ¬ s.session.current.isSome = true := hclosing
      have hempty := empty shown ⟨Option.not_isSome_iff_eq_none.mp hopen, rfl⟩
      refine of_ledger 0 _ ?_
      rw [make, toggle, if_neg hopen, display_of_empty hempty]
    | displayAndAwait shown w =>
      refine of_ledger 0 _ ?_
      rw [make, ledger_displayAndAwait, display_of_empty (empty shown rfl)]
    | close => exact absurd trivial hclosing
    | _ =>
      rcases hs with ⟨_, hs⟩ | hs
      · exact hs.elim
      · exact hs.elim
  | @event e c hp =>
    cases e with
    | wake w =>
      cases w with
      | task n =>
        rcases ledger_wakeTask { s with clock := c } n 0 with ⟨shown, hw, hsame⟩ | ⟨_, hsame⟩
        · rw [display_of_empty (empty shown hw)] at hsame
          have hd := congrArg Ledger.toDisplay hsame
          have hj := congrArg Ledger.jobs hsame
          exact ⟨hd, hj⟩
        · have hd := congrArg Ledger.toDisplay hsame
          have hj := congrArg Ledger.jobs hsame
          exact ⟨hd, hj⟩
      | program =>
        rcases hs with ⟨_, hs⟩ | hs
        · exact hs.elim
        · exact hs.elim
    | _ =>
      rcases hs with ⟨_, hs⟩ | hs
      · exact hs.elim
      · exact hs.elim

/-- What an act does to the display that shows nothing and closes nothing: a job lands, or batches are opened. -/
theorem Step.of_not_turns (h : Step s a t) (hq : ¬ s.Turns a) :
    (∃ i j o, Lands i j o (s.ledger 0) (t.ledger 0)) ∨
    (∃ bs, (t.ledger 0).toDisplay = { (s.ledger 0).toDisplay with batches := (s.ledger 0).batches ++ bs }) ∧
      ∀ (i : Nat) (j : Job), s.jobs[i]? = some j → ∃ j', t.jobs[i]? = some j' ∧ j'.outcome = j.outcome := by
  -- an act that shows or closes by its kind does neither here, for want of a message or of something to close
  by_cases hs : (∃ shown, a.Shows shown) ∨ a.Closes
  · obtain ⟨hd, hj⟩ := h.of_shows hq hs
    refine .inr ⟨⟨[], by rw [hd, List.append_nil]⟩, ?_⟩
    intro i j hi
    exact ⟨j, hj ▸ hi, rfl⟩
  · obtain ⟨hs, hc⟩ := not_or.mp hs
    cases ha : a.job? with
    | none =>
      refine .inr ⟨h.effects.of_program ha (fun shown hshows => hs ⟨shown, hshows⟩) hc, ?_⟩
      intro i j hi
      exact ⟨j, h.effects.other (by simp [ha]) hi, rfl⟩
    | some n =>
      rcases h.effects.of_job ha with hstill | ⟨j, o, hlands⟩
      · refine .inr ⟨⟨[], ?_⟩, ?_⟩
        · rw [List.append_nil]
          exact hstill.display
        · intro i j hi
          by_cases hn : n = i
          · subst hn
            obtain ⟨j', hj', ho, _⟩ := hstill.job j hi
            exact ⟨j', hj', ho⟩
          · exact ⟨j, h.effects.other (by simp [ha, hn]) hi, rfl⟩
      · exact .inl ⟨n, j, o, hlands.length, hlands.before, hlands.undone, hlands.after, hlands.display⟩

theorem Course.outcome {as : List Act} (h : Course s as t) {i : Nat} {j : Job} {o : Outcome}
    (hj : s.jobs[i]? = some j) (ho : j.outcome = some o) :
    ∃ j', t.jobs[i]? = some j' ∧ j'.outcome = some o ∧ j'.listener = j.listener := by
  induction h with
  | nil => exact ⟨j, hj, ho, rfl⟩
  | snoc _ hstep ih =>
    obtain ⟨j₁, hj₁, ho₁, hl₁⟩ := ih
    obtain ⟨j₂, hj₂, ho₂, hl₂⟩ := hstep.effects.outcome hj₁ ho₁
    exact ⟨j₂, hj₂, ho₂, hl₂.trans hl₁⟩

theorem Course.listener {as : List Act} (h : Course s as t) {i : Nat} {j : Job} (hj : s.jobs[i]? = some j) :
    ∃ j', t.jobs[i]? = some j' ∧ j'.listener = j.listener ∧ j'.content = j.content := by
  induction h with
  | nil => exact ⟨j, hj, rfl, rfl⟩
  | snoc _ hstep ih =>
    obtain ⟨j₁, hj₁, hl₁, hc₁⟩ := ih
    obtain ⟨j₂, hj₂, hl₂, hc₂⟩ := hstep.effects.listener hj₁
    exact ⟨j₂, hj₂, hl₂.trans hl₁, hc₂.trans hc₁⟩

/-! ## What the program sees -/

/-- The display was refreshed: it has these segments, one more error if the outcome has one, and a new rendering,
which the program took if it takes any. There is no rendering, and none is taken, if the code has too many digits. -/
structure Refreshed (s t : Service) (shown : Shown) (segments : List Segment) (o : Outcome) : Prop where
  current : t.session.current = s.session.current
  segments_eq : t.session.segments = segments
  errors : t.session.errors = s.session.errors ++ o.error.toList
  view : View.Follows s.session.view shown.diagnostic segments s.config.title t.session.view
  taken : ¬ shown.diagnostic.HasWideCode →
    t.renderings.map (·.2) = s.renderings.map (·.2) ++ if s.onRender.isSome then t.session.view.toList else []
  untaken : shown.diagnostic.HasWideCode → t.renderings.map (·.2) = s.renderings.map (·.2)

theorem Refreshed.of_present {shown : Shown} {segments : List Segment} {o : Outcome}
    (hsession : (t.ledger 0).session =
      ((s.ledger 0).present shown.diagnostic segments (s.session.errors ++ o.error.toList)).session)
    (hviews : (t.ledger 0).views =
      ((s.ledger 0).present shown.diagnostic segments (s.session.errors ++ o.error.toList)).views) :
    Refreshed s t shown segments o := by
  have hcurrent := congrArg Session.current hsession
  have hsegments := congrArg Session.segments hsession
  have herrors := congrArg Session.errors hsession
  have hview := congrArg Session.view hsession
  have hfollows : View.Follows s.session.view shown.diagnostic segments s.config.title t.session.view :=
    View.follows_iff.mpr hview
  have hviews : t.renderings.map (·.2) = s.renderings.map (·.2) ++ if s.onRender.isSome then
      (View.ofDiagnostic shown.diagnostic segments s.config.title).toOption.toList else [] := hviews
  refine ⟨hcurrent, hsegments, herrors, hfollows, ?_, ?_⟩
  · intro hwide
    obtain ⟨v, hv, hv'⟩ := hfollows.rendered hwide
    rw [hviews, hv, hv']
    rfl
  · intro hwide
    simp [hviews, View.ofDiagnostic_of_wide hwide, Except.toOption]

/-- The display is as it was, and the program took no rendering. -/
structure SameDisplay (s t : Service) : Prop where
  current : t.session.current = s.session.current
  segments : t.session.segments = s.session.segments
  errors : t.session.errors = s.session.errors
  view : t.session.view = s.session.view
  renderings : t.renderings.map (·.2) = s.renderings.map (·.2)

theorem SameDisplay.of_ledger (hsession : (t.ledger 0).session = (s.ledger 0).session)
    (hviews : (t.ledger 0).views = (s.ledger 0).views) : SameDisplay s t := by
  have hcurrent := congrArg Session.current hsession
  have hsegments := congrArg Session.segments hsession
  have herrors := congrArg Session.errors hsession
  have hview := congrArg Session.view hsession
  exact ⟨hcurrent, hsegments, herrors, hview, hviews⟩

/-- A job for a slot of a batch lands: its outcome is put into the slot, and the display is refreshed if and
only if the diagnostic of the batch is the one on display. -/
theorem Lands.slot {i n place : Nat} {j : Job} {o : Outcome} {b : Batch} (h : Lands i j o (s.ledger 0) (t.ledger 0))
    (hl : j.listener = .slot n place) (hb : s.batches[n]? = some b) :
    ∃ b', t.batches[n]? = some b' ∧ b'.shown = b.shown ∧
      b'.slots = b.slots.modify place (·.withContent o.text) ∧
      (s.isCurrent b.shown = true → Refreshed s t b.shown b'.slots o) ∧
      (s.isCurrent b.shown = false → SameDisplay s t) := by
  have hland : (t.ledger 0).toDisplay = (s.ledger 0).land n place o := by rw [h.display, hl, Display.tell]
  have hget : (s.ledger 0).batches[n]? = some b.bare := by simp [ledger, hb]
  have hlt : n < (s.ledger 0).batches.length := (List.getElem?_eq_some_iff.mp hget).1
  rw [Display.land, hget] at hland
  dsimp only at hland
  have hbatches : (t.ledger 0).batches = (s.ledger 0).batches.set n (b.bare.put place o).settled := by
    have hb := congrArg Display.batches hland
    split at hb <;> exact hb
  obtain ⟨b', hb', hbare⟩ : ∃ b', t.batches[n]? = some b' ∧ b'.bare = (b.bare.put place o).settled := by
    have hset : (t.ledger 0).batches[n]? = some (b.bare.put place o).settled := by
      rw [hbatches]
      exact List.getElem?_set_self hlt
    simpa [ledger] using hset
  have hshown : b'.shown = b.shown := by
    have h := congrArg Batch.shown hbare
    rwa [Batch.shown_settled] at h
  have hslots : b'.slots = (b.bare.put place o).slots := by
    have h := congrArg Batch.slots hbare
    rwa [Batch.slots_settled] at h
  refine ⟨b', hb', hshown, hslots, ?_, ?_⟩
  · intro hcur
    have hshows : (s.ledger 0).shows b.bare.shown = true := hcur
    rw [if_pos hshows] at hland
    have hsession := congrArg Display.session hland
    have hviews := congrArg Display.views hland
    rw [hslots]
    exact .of_present hsession hviews
  · intro hcur
    have hshows : ¬ (s.ledger 0).shows b.bare.shown = true := by
      rw [Bool.not_eq_true]
      exact hcur
    rw [if_neg hshows] at hland
    have hsession := congrArg Display.session hland
    have hviews := congrArg Display.views hland
    exact .of_ledger hsession hviews

end Legible.Service
