import Legible.Proofs.Service.Landing
import Legible.Proofs.Service.Refusal
/-!
# A batch does not depend on the order of its jobs

At any time, the slots of a batch are the segments with the outcomes that their jobs have come to so far, in
whatever order that was, and the batch has its result when no job is left. `Filling` says so of a ledger.
A batch that is not refused has a job for each code segment of the message. Text stays with all segments, and so
do kind and language; and nothing of this depends on who takes a rendering.
-/

namespace Legible

@[simp] theorem Segment.withContent_withContent (s : Segment) (t u : Text) :
    (s.withContent t).withContent u = s.withContent u := by
  cases s <;> rfl

/-- The segments with the answers for their places. -/
def fill (answer : Nat → Option Outcome) (segments : List Segment) : List Segment :=
  segments.mapIdx fun place s => match answer place with
    | some o => s.withContent o.text
    | none => s

theorem fill_none {answer : Nat → Option Outcome} (h : ∀ place, answer place = none) (segments : List Segment) :
    fill answer segments = segments := by
  refine List.ext_getElem? fun i => ?_
  simp [fill, h]

@[simp] theorem map_kind_fill (answer : Nat → Option Outcome) (segments : List Segment) :
    (fill answer segments).map Segment.kind = segments.map Segment.kind := by
  refine List.ext_getElem? fun i => ?_
  simp only [fill, List.getElem?_map, List.getElem?_mapIdx]
  cases segments[i]? with
  | none => rfl
  | some s => cases answer i <;> cases s <;> rfl

@[simp] theorem map_lang_fill (answer : Nat → Option Outcome) (segments : List Segment) :
    (fill answer segments).map Segment.lang = segments.map Segment.lang := by
  refine List.ext_getElem? fun i => ?_
  simp only [fill, List.getElem?_map, List.getElem?_mapIdx]
  cases segments[i]? with
  | none => rfl
  | some s => cases answer i <;> cases s <;> rfl

/-- One more answer changes one place. -/
theorem modify_fill {answer answer' : Nat → Option Outcome} {place : Nat} {o : Outcome}
    (hplace : answer' place = some o) (hother : ∀ i, i ≠ place → answer' i = answer i) (segments : List Segment) :
    (fill answer segments).modify place (·.withContent o.text) = fill answer' segments := by
  refine List.ext_getElem? fun i => ?_
  rw [List.getElem?_modify]
  simp only [fill, List.getElem?_mapIdx]
  by_cases hi : i = place
  · subst hi
    cases segments[i]? with
    | none => rfl
    | some s => cases answer i <;> simp [hplace]
  · have hne : ¬ place = i := fun h => hi h.symm
    cases segments[i]? <;> simp [hother i hi, hne]

/-- The job is to fill a slot of this batch. -/
def Job.fills (n : Nat) (j : Job) : Bool :=
  match j.listener with
  | .slot b _ => b = n
  | _ => false

/-- What the job for a slot has come to. -/
def answerTo (jobs : List Job) (n place : Nat) : Option Outcome :=
  (jobs.find? fun j => j.listener = .slot n place).bind (·.outcome)

/-- One, if the job is for this batch and has no outcome yet. -/
def Job.left (n : Nat) (j : Job) : Nat := if j.fills n && !j.done then 1 else 0

/-- How many jobs for a batch have no outcome yet. -/
def undone (jobs : List Job) (n : Nat) : Nat := (jobs.map (Job.left n)).sum

/-- No two jobs are for the same slot of a batch. -/
def Once (jobs : List Job) (n : Nat) : Prop :=
  ∀ (i i' : Nat) (j j' : Job) (place : Nat), jobs[i]? = some j → jobs[i']? = some j' →
    j.listener = .slot n place → j'.listener = .slot n place → i = i'

section Answers

variable {jobs : List Job} {n i : Nat} {j : Job}

theorem answerTo_eq_outcome (h : Once jobs n) {place : Nat} (hj : jobs[i]? = some j)
    (hl : j.listener = .slot n place) : answerTo jobs n place = j.outcome := by
  have hmem : j ∈ jobs := List.mem_of_getElem? hj
  cases hf : jobs.find? fun j => j.listener = .slot n place with
  | none =>
    rw [List.find?_eq_none] at hf
    exact absurd (by simpa using hl) (hf j hmem)
  | some k =>
    obtain ⟨i', hk⟩ := List.getElem?_of_mem (List.mem_of_find?_eq_some hf)
    have hlk : k.listener = .slot n place := by simpa using List.find?_some hf
    cases h i i' j k place hj hk hl hlk
    cases hj.symm.trans hk
    simp [answerTo, hf]

theorem answerTo_eq_none {place : Nat} (h : ∀ (i : Nat) (j : Job), jobs[i]? = some j → j.listener ≠ .slot n place) :
    answerTo jobs n place = none := by
  have hf : (jobs.find? fun j => j.listener = .slot n place) = none := by
    rw [List.find?_eq_none]
    intro j hj
    obtain ⟨i, hi⟩ := List.getElem?_of_mem hj
    simpa using h i j hi
  rw [answerTo, hf, Option.bind_none]

theorem getElem?_modify_listener {f : Job → Job} (hf : ∀ j, (f j).listener = j.listener) (m : Nat) {i : Nat} {j' : Job}
    (h : (jobs.modify m f)[i]? = some j') : ∃ j, jobs[i]? = some j ∧ j'.listener = j.listener := by
  rw [List.getElem?_modify] at h
  obtain ⟨j, hj, rfl⟩ := Option.map_eq_some_iff.mp h
  refine ⟨j, hj, ?_⟩
  split
  · exact hf j
  · rfl

theorem Once.modify (h : Once jobs n) {f : Job → Job} (hf : ∀ j, (f j).listener = j.listener) (m : Nat) :
    Once (jobs.modify m f) n := by
  intro i i' j j' place hj hj' hl hl'
  obtain ⟨k, hk, hlk⟩ := getElem?_modify_listener hf m hj
  obtain ⟨k', hk', hlk'⟩ := getElem?_modify_listener hf m hj'
  exact h i i' k k' place hk hk' (hlk ▸ hl) (hlk' ▸ hl')

/-- One more job, for a slot that no job is for. -/
theorem Once.append (h : Once jobs n)
    (hnew : ∀ (i : Nat) (k : Job) (place : Nat), jobs[i]? = some k → j.listener = .slot n place →
      k.listener ≠ .slot n place) : Once (jobs ++ [j]) n := by
  intro i i' k k' place hk hk' hl hl'
  have old {m : Nat} {x : Job} (hx : (jobs ++ [j])[m]? = some x) : jobs[m]? = some x ∨ m = jobs.length ∧ x = j := by
    rw [List.getElem?_append] at hx
    split at hx
    · exact .inl hx
    · rw [List.getElem?_singleton] at hx
      split at hx
      · exact .inr ⟨by omega, (Option.some.inj hx).symm⟩
      · cases hx
  rcases old hk with h₁ | ⟨rfl, rfl⟩ <;> rcases old hk' with h₂ | ⟨rfl, rfl⟩
  · exact h i i' k k' place h₁ h₂ hl hl'
  · exact absurd hl (hnew i k place h₁ hl')
  · exact absurd hl' (hnew i' k' place h₂ hl)
  · rfl

/-- A change to a job changes the answer for its slot alone. -/
theorem answerTo_modify (h : Once jobs n) (hj : jobs[i]? = some j) {f : Job → Job}
    (hf : ∀ j, (f j).listener = j.listener) (place : Nat) :
    answerTo (jobs.modify i f) n place = if j.listener = .slot n place then (f j).outcome else answerTo jobs n place := by
  have hfj : (jobs.modify i f)[i]? = some (f j) := by simp [hj]
  split
  · rename_i hl
    exact answerTo_eq_outcome (h.modify hf i) hfj ((hf j).trans hl)
  · rename_i hl
    by_cases hex : ∃ (m : Nat) (k : Job), jobs[m]? = some k ∧ k.listener = .slot n place
    · obtain ⟨m, k, hk, hlk⟩ := hex
      have hm : i ≠ m := by
        rintro rfl
        cases hj.symm.trans hk
        exact hl hlk
      rw [answerTo_eq_outcome h hk hlk]
      exact answerTo_eq_outcome (h.modify hf i) (by rw [List.getElem?_modify_ne _ _ hm, hk]) hlk
    · have hnone : ∀ (m : Nat) (k : Job), jobs[m]? = some k → k.listener ≠ .slot n place :=
        fun m k hk hlk => hex ⟨m, k, hk, hlk⟩
      rw [answerTo_eq_none hnone]
      refine answerTo_eq_none ?_
      intro m k hk
      obtain ⟨k', hk', hlk⟩ := getElem?_modify_listener hf i hk
      exact hlk ▸ hnone m k' hk'

theorem answerTo_append (hj : j.fills n = false) (place : Nat) :
    answerTo (jobs ++ [j]) n place = answerTo jobs n place := by
  have hl : ¬ j.listener = .slot n place := by
    intro h
    simp [Job.fills, h] at hj
  cases hf : jobs.find? fun j => j.listener = .slot n place <;> simp [answerTo, List.find?_append, hf, hl]

end Answers

namespace Service

open Ledger

/-- A batch of so many jobs that are left. -/
def filled (shown : Shown) (segments : List Segment) (answer : Nat → Option Outcome) (left : Nat) : Batch where
  shown := shown
  slots := fill answer segments
  remaining := left
  result := if left = 0 then some (fill answer segments) else none

theorem settled_put_filled (shown : Shown) (segments : List Segment) {answer answer' : Nat → Option Outcome}
    {place : Nat} {o : Outcome} (hplace : answer' place = some o) (hother : ∀ i, i ≠ place → answer' i = answer i)
    (left : Nat) :
    ((filled shown segments answer (left + 1)).put place o).settled = filled shown segments answer' left := by
  have hslots := modify_fill hplace hother segments
  cases left <;> simp [filled, Batch.put, Batch.settled, hslots]

/-- A batch is filled with what its jobs have come to; some of its segments may never have been asked for. -/
structure Filling (n : Nat) (shown : Shown) (segments : List Segment) (missing : Nat) (c : Ledger) : Prop where
  once : Once c.jobs n
  code : ∀ (i : Nat) (j : Job) (place : Nat), c.jobs[i]? = some j → j.listener = .slot n place →
    ∃ seg, segments[place]? = some seg ∧ seg.isCode = true ∧ j.content = seg.content
  batch : c.batches[n]? = some (filled shown segments (answerTo c.jobs n) (undone c.jobs n + missing))

variable {a : Act} {c₀ c d : Ledger} {n missing : Nat} {shown : Shown} {segments : List Segment}

theorem Filling.lt (h : Filling n shown segments missing c) : n < c.batches.length :=
  (List.getElem?_eq_some_iff.mp h.batch).1

theorem Filling.code_modify (h : Filling n shown segments missing c) {f : Job → Job}
    (hf : ∀ j, (f j).listener = j.listener) (hcontent : ∀ j, (f j).content = j.content) (m i : Nat) (j : Job)
    (place : Nat) (hj : (c.jobs.modify m f)[i]? = some j) (hl : j.listener = .slot n place) :
    ∃ seg, segments[place]? = some seg ∧ seg.isCode = true ∧ j.content = seg.content := by
  rw [List.getElem?_modify] at hj
  obtain ⟨k, hk, rfl⟩ := Option.map_eq_some_iff.mp hj
  split at hl
  · obtain ⟨seg, hseg, hcode, hc⟩ := h.code i k place hk ((hf k).symm.trans hl)
    exact ⟨seg, hseg, hcode, by rw [if_pos ‹_›, hcontent, hc]⟩
  · obtain ⟨seg, hseg, hcode, hc⟩ := h.code i k place hk hl
    exact ⟨seg, hseg, hcode, by rw [if_neg ‹_›, hc]⟩

/-- Nothing changes for a batch as long as its jobs come to nothing. -/
theorem Filling.keep (h : Filling n shown segments missing c) {i : Nat} {j : Job} (hj : c.jobs[i]? = some j)
    {f : Job → Job} (hf : ∀ j, (f j).listener = j.listener) (hcontent : ∀ j, (f j).content = j.content)
    (hjobs : d.jobs = c.jobs.modify i f) (hsame : j.fills n = true → (f j).outcome = j.outcome)
    (hbatch : d.batches[n]? = c.batches[n]?) :
    Filling n shown segments missing d := by
  have hanswer : answerTo d.jobs n = answerTo c.jobs n := by
    funext place
    rw [hjobs, answerTo_modify h.once hj hf]
    split
    · rename_i hl
      rw [answerTo_eq_outcome h.once hj hl, hsame (by simp [Job.fills, hl])]
    · rfl
  have hundone : undone d.jobs n = undone c.jobs n := by
    have hsum := sum_modify hj f (Job.left n)
    have hleft : (f j).left n = j.left n := by
      have hfills : (f j).fills n = j.fills n := by rw [Job.fills, hf, Job.fills]
      cases hn : j.fills n
      · simp [Job.left, hfills, hn]
      · simp [Job.left, hfills, hn, Promise.done, hsame hn]
    rw [undone, undone, hjobs]
    omega
  refine ⟨hjobs ▸ h.once.modify hf i, hjobs ▸ h.code_modify hf hcontent i, ?_⟩
  rw [hbatch, h.batch, hanswer, hundone]

/-- A job of a batch lands in it. -/
theorem Filling.land (h : Filling n shown segments missing c) {i place : Nat} {j : Job} {o : Outcome}
    (hj : c.jobs[i]? = some j) (hd : j.done = false) (hl : j.listener = .slot n place) :
    Filling n shown segments missing (c.complete i o) := by
  have hf : ∀ j : Job, Job.listener { j with toPromise := j.fix o } = j.listener := fun _ => rfl
  have hjobs : (c.complete i o).jobs = c.jobs.modify i fun j => { j with toPromise := j.fix o } := by
    rw [complete_of_undone hj hd]
    rfl
  have hanswer := answerTo_modify h.once hj hf
  have hplace : answerTo (c.complete i o).jobs n place = some o := by
    rw [hjobs, hanswer, if_pos hl]
    rfl
  have hother (p : Nat) (hp : p ≠ place) : answerTo (c.complete i o).jobs n p = answerTo c.jobs n p := by
    have hne : ¬ j.listener = .slot n p := by
      rw [hl]
      simpa using fun h : place = p => hp h.symm
    rw [hjobs, hanswer, if_neg hne]
  -- one job fewer is left
  have hundone : undone c.jobs n = undone (c.complete i o).jobs n + 1 := by
    have hsum := sum_modify hj (fun j => { j with toPromise := j.fix o }) (Job.left n)
    have hbefore : j.left n = 1 := by simp [Job.left, Job.fills, hl, hd]
    have hafter : Job.left n { j with toPromise := j.fix o } = 0 := by simp [Job.left]
    beta_reduce at hsum
    rw [hbefore, hafter] at hsum
    rw [undone, undone, hjobs]
    exact hsum.symm
  refine ⟨hjobs ▸ h.once.modify hf i, hjobs ▸ h.code_modify hf (fun _ => rfl) i, ?_⟩
  have hbatches : (c.complete i o).batches = (c.land n place o).batches := by
    rw [complete_of_undone hj hd, hl]
    rfl
  have hget : c.batches[n]?
      = some (filled shown segments (answerTo c.jobs n) (undone (c.complete i o).jobs n + missing + 1)) := by
    rw [h.batch, hundone, Nat.add_right_comm]
  rw [hbatches, ← settled_put_filled shown segments hplace hother, Display.land, hget]
  have hset : (c.batches.set n (Batch.settled (Batch.put
      (filled shown segments (answerTo c.jobs n) (undone (c.complete i o).jobs n + missing + 1)) place o)))[n]?
      = some _ := List.getElem?_set_self h.lt
  dsimp only
  split <;> exact hset

/-- A listener that is no slot of a batch leaves the batch as it is. -/
theorem getElem?_batches_tell {l : Listener} (hl : ∀ place, l ≠ .slot n place) (c : Display) (o : Outcome) :
    (c.tell l o).batches[n]? = c.batches[n]? := by
  cases l with
  | slot b place =>
    have hb : b ≠ n := by
      rintro rfl
      exact hl place rfl
    rw [Display.tell, Display.land]
    split
    · rfl
    · dsimp only
      split <;> exact List.getElem?_set_ne hb
  | _ => rfl

theorem Effect.filling (h : Effect a c₀ c d) (hn : n < c₀.batches.length)
    (hf : Filling n shown segments missing c) : Filling n shown segments missing d := by
  cases h with
  | @ask content l j es _ hask hslot =>
    -- a slot is asked for in the act that opens its batch
    obtain ⟨_, rfl, _⟩ := hask.new
    have hno : j.fills n = false := by
      unfold Job.fills
      split
      · rename_i b place hl
        have := (hslot b place hl).1
        exact decide_eq_false (by omega)
      · rfl
    have hundone : undone (c.ask j es).jobs n = undone c.jobs n := by
      simp [undone, Ledger.ask, Job.left, hno]
    have hnot (place : Nat) : j.listener ≠ .slot n place := by
      intro hl
      simp [Job.fills, hl] at hno
    refine ⟨hf.once.append fun _ _ place _ hl => absurd hl (hnot place), ?_, ?_⟩
    · intro i k place hk hl
      simp only [Ledger.ask, List.getElem?_append] at hk
      split at hk
      · exact hf.code i k place hk hl
      · rw [List.getElem?_singleton] at hk
        split at hk
        · cases hk
          exact absurd hl (hnot place)
        · cases hk
    · rw [hundone, show answerTo (c.ask j es).jobs n = answerTo c.jobs n from funext (answerTo_append hno)]
      exact hf.batch
  | batch b =>
    refine ⟨hf.once, hf.code, ?_⟩
    rw [Display.openBatch, List.getElem?_append_left hf.lt]
    exact hf.batch
  | @task m j t _ hj =>
    exact hf.keep (f := fun j => { j with task := t }) hj (fun _ => rfl) (fun _ => rfl) rfl (fun _ => rfl) rfl
  | @complete m j o _ hj hd =>
    by_cases hl : ∃ place, j.listener = .slot n place
    · obtain ⟨place, hl⟩ := hl
      exact hf.land hj hd hl
    · -- another batch, a watcher or the program is told
      have hne : ∀ place, j.listener ≠ .slot n place := fun place h => hl ⟨place, h⟩
      rw [complete_of_undone hj hd]
      refine hf.keep (f := fun j => { j with toPromise := j.fix o }) hj (fun _ => rfl) (fun _ => rfl) rfl ?_ ?_
      · intro hfills
        unfold Job.fills at hfills
        split at hfills
        · rename_i b place hb
          exact absurd (of_decide_eq_true hfills ▸ hb) (hne place)
        · cases hfills
      · exact getElem?_batches_tell hne _ o
  | _ => exact ⟨hf.once, hf.code, hf.batch⟩

theorem Effects.filling (h : Effects a c₀ c d) (hn : n < c₀.batches.length)
    (hf : Filling n shown segments missing c) : Filling n shown segments missing d := by
  induction h with
  | refl => exact hf
  | tail _ heff ih => exact heff.filling hn ih

variable {s t : Service}

theorem Step.filling (h : Step s a t) (hf : Filling n shown segments missing (s.ledger 0)) :
    Filling n shown segments missing (t.ledger 0) := by
  have ht := h.effects.filling hf.lt hf
  exact ⟨ht.once, ht.code, ht.batch⟩

/-- The batch itself, whoever waits for it. -/
theorem Filling.exists_batch (h : Filling n shown segments missing (s.ledger 0)) : ∃ b, s.batches[n]? = some b ∧
    b.bare = filled shown segments (answerTo s.jobs n) (undone s.jobs n + missing) := by
  have hbatch := h.batch
  simp only [ledger, List.getElem?_map, Option.map_eq_some_iff] at hbatch
  exact hbatch

theorem Filling.bare_eq (h : Filling n shown segments missing (s.ledger 0)) {b : Batch} (hb : s.batches[n]? = some b) :
    b.bare = filled shown segments (answerTo s.jobs n) (undone s.jobs n + missing) := by
  obtain ⟨b', hb', hbare⟩ := h.exists_batch
  cases hb.symm.trans hb'
  exact hbare

theorem Course.filling {as : List Act} (h : Course s as t) (hf : Filling n shown segments missing (s.ledger 0)) :
    Filling n shown segments missing (t.ledger 0) :=
  h.invariant (fun s => Filling n shown segments missing (s.ledger 0)) hf fun _ _ _ hv hstep => hstep.filling hv

/-! ## Opening a batch -/

theorem nodup_codePlaces (segments : List Segment) : (codePlaces segments).Nodup := by
  have hsub : (codePlaces segments).Sublist (segments.zipIdx.map (·.2)) := List.filter_sublist.map _
  refine hsub.nodup ?_
  exact (List.zipIdx_map_snd 0 segments).symm ▸ List.nodup_range'

/-- The jobs that a batch asks for, one for each place up to a fault. -/
structure Asked (n : Nat) (segments : List Segment) (places : List Nat) (js : List Job) : Prop where
  length : js.length ≤ places.length
  job : ∀ (p : Nat) (j : Job), js[p]? = some j → ∃ place seg, places[p]? = some place ∧
    segments[place]? = some seg ∧ j.content = seg.content ∧ j.listener = .slot n place ∧ j.outcome = none ∧ j.told = []

theorem Asked.nil {places : List Nat} : Asked n segments places [] where
  length := Nat.zero_le _
  job p j h := by cases h

theorem requestSlots_spec (s : Service) (n : Nat) (segments : List Segment) (places : List Nat)
    (hplaces : ∀ place ∈ places, place ∈ codePlaces segments) :
    ∃ js, Asked n segments places js ∧ (s.requestSlots n segments places).2.jobs = s.jobs ++ js ∧
      ((s.requestSlots n segments places).2.ledger 0).toDisplay = (s.ledger 0).toDisplay ∧
      ∀ u, (s.requestSlots n segments places).1 = .ok u → js.length = places.length := by
  induction places generalizing s with
  | nil => exact ⟨[], .nil, (List.append_nil _).symm, rfl, fun _ _ => rfl⟩
  | cons place r ih =>
    obtain ⟨seg, hseg, _⟩ := mem_codePlaces.mp (hplaces place List.mem_cons_self)
    have hr : ∀ p ∈ r, p ∈ codePlaces segments := fun p hp => hplaces p (List.mem_cons_of_mem _ hp)
    have hcases := request_cases s seg.content (.slot n place) 0
    rw [requestSlots, hseg]
    dsimp only
    generalize s.request seg.content (.slot n place) = p at hcases
    obtain ⟨res, t⟩ := p
    dsimp only at hcases ⊢
    rcases hcases with ⟨i, j, es, rfl, hask, heq⟩ | ⟨f, rfl, _, heq⟩
    · have hjobs : t.jobs = s.jobs ++ [j] := congrArg Ledger.jobs heq
      have hdisplay := congrArg Ledger.toDisplay heq
      obtain ⟨js, hasked, hjs, hd, hok⟩ := ih t hr
      obtain ⟨hcontent, hlis, hnone, htold, _⟩ := hask.new
      refine ⟨j :: js, ⟨Nat.succ_le_succ hasked.length, ?_⟩, ?_, hd.trans hdisplay, ?_⟩
      · intro p k hk
        cases p with
        | zero =>
          cases hk
          exact ⟨place, seg, rfl, hseg, hcontent, hlis, hnone, htold⟩
        | succ p => exact hasked.job p k hk
      · rw [hjs, hjobs, List.append_assoc, List.singleton_append]
      · intro u hu
        rw [List.length_cons, List.length_cons, hok u hu]
    · refine ⟨[], .nil, ?_, congrArg Ledger.toDisplay heq, ?_⟩
      · rw [List.append_nil]
        exact congrArg Ledger.jobs heq
      · intro u hu
        cases hu

section Asked

variable {jobs js : List Job} {places : List Nat}

theorem getElem?_append_cases {i : Nat} {j : Job} (h : (jobs ++ js)[i]? = some j) :
    jobs[i]? = some j ∨ ∃ p, i = jobs.length + p ∧ js[p]? = some j := by
  rw [List.getElem?_append] at h
  split at h
  · exact .inl h
  · exact .inr ⟨i - jobs.length, by omega, h⟩

theorem Asked.once (h : Asked n segments places js) (hnodup : places.Nodup)
    (hold : ∀ (i : Nat) (j : Job) (place : Nat), jobs[i]? = some j → j.listener ≠ .slot n place) :
    Once (jobs ++ js) n := by
  intro i i' j j' place hj hj' hl hl'
  rcases getElem?_append_cases hj with hin | ⟨p, rfl, hin⟩
  · exact absurd hl (hold i j place hin)
  rcases getElem?_append_cases hj' with hin' | ⟨p', rfl, hin'⟩
  · exact absurd hl' (hold i' j' place hin')
  obtain ⟨_, _, hp, _, _, hlis, _⟩ := h.job p j hin
  obtain ⟨_, _, hp', _, _, hlis', _⟩ := h.job p' j' hin'
  cases hl.symm.trans hlis
  cases hl'.symm.trans hlis'
  obtain ⟨hlt, _⟩ := List.getElem?_eq_some_iff.mp hp
  rw [(List.getElem?_inj hlt hnodup).mp (hp.trans hp'.symm)]

theorem Asked.code (h : Asked n segments places js) (hplaces : ∀ place ∈ places, place ∈ codePlaces segments)
    (hold : ∀ (i : Nat) (j : Job) (place : Nat), jobs[i]? = some j → j.listener ≠ .slot n place) (i : Nat) (j : Job)
    (place : Nat) (hj : (jobs ++ js)[i]? = some j) (hl : j.listener = .slot n place) :
    ∃ seg, segments[place]? = some seg ∧ seg.isCode = true ∧ j.content = seg.content := by
  rcases getElem?_append_cases hj with hin | ⟨p, rfl, hin⟩
  · exact absurd hl (hold i j place hin)
  obtain ⟨_, seg, hp, hseg, hcontent, hlis, _⟩ := h.job p j hin
  cases hl.symm.trans hlis
  obtain ⟨seg', hseg', hcode⟩ := mem_codePlaces.mp (hplaces place (List.mem_of_getElem? hp))
  cases hseg.symm.trans hseg'
  exact ⟨seg, hseg, hcode, hcontent⟩

theorem Asked.answerTo_eq_none (h : Asked n segments places js) (hnodup : places.Nodup)
    (hold : ∀ (i : Nat) (j : Job) (place : Nat), jobs[i]? = some j → j.listener ≠ .slot n place) (place : Nat) :
    answerTo (jobs ++ js) n place = none := by
  by_cases hex : ∃ (i : Nat) (j : Job), (jobs ++ js)[i]? = some j ∧ j.listener = .slot n place
  · obtain ⟨i, j, hj, hl⟩ := hex
    rw [answerTo_eq_outcome (h.once hnodup hold) hj hl]
    rcases getElem?_append_cases hj with hin | ⟨p, rfl, hin⟩
    · exact absurd hl (hold i j place hin)
    · obtain ⟨_, _, _, _, _, _, hnone, _⟩ := h.job p j hin
      exact hnone
  · exact Legible.answerTo_eq_none fun i j hj hl => hex ⟨i, j, hj, hl⟩

theorem Asked.undone_eq_length (h : Asked n segments places js)
    (hold : ∀ (i : Nat) (j : Job) (place : Nat), jobs[i]? = some j → j.listener ≠ .slot n place) :
    undone (jobs ++ js) n = js.length := by
  have hjobs : (jobs.map (Job.left n)).sum = 0 := by
    rw [List.sum_eq_zero]
    intro w hw
    obtain ⟨j, hj, rfl⟩ := List.mem_map.mp hw
    obtain ⟨i, hi⟩ := List.getElem?_of_mem hj
    have hno : j.fills n = false := by
      unfold Job.fills
      split
      · rename_i b place hl
        refine decide_eq_false ?_
        rintro rfl
        exact hold i j place hi hl
      · rfl
    simp [Job.left, hno]
  have hjs : js.map (Job.left n) = js.map fun _ => 1 := by
    refine List.map_congr_left ?_
    intro j hj
    obtain ⟨p, hp⟩ := List.getElem?_of_mem hj
    obtain ⟨_, _, _, _, _, hl, hnone, _⟩ := h.job p j hp
    simp [Job.left, Job.fills, hl, Promise.done, hnone]
  rw [undone, List.map_append, List.sum_append, hjobs, hjs]
  simp

end Asked

/-- No job is for a slot of a batch that is yet to come. -/
theorem Sound.listener_ne {s : Service} (hs : Sound (s.ledger 0)) (i : Nat) (j : Job) (place : Nat)
    (hj : s.jobs[i]? = some j) : j.listener ≠ .slot s.batches.length place := by
  intro hl
  have hlt := hs.slot i j _ place hj hl
  simp [ledger] at hlt

/-- Once started, a batch is there with its segments as they are, and its jobs have come to nothing yet. -/
theorem startBatch_spec {s : Service}
    (hold : ∀ (i : Nat) (j : Job) (place : Nat), s.jobs[i]? = some j → j.listener ≠ .slot s.batches.length place)
    (segments : List Segment) (shown : Shown) :
    ∃ js missing, Asked s.batches.length segments (codePlaces segments) js ∧
      (s.startBatch segments shown).2.jobs = s.jobs ++ js ∧
      Filling s.batches.length shown segments missing ((s.startBatch segments shown).2.ledger 0) ∧
      (∃ b, ((s.startBatch segments shown).2.ledger 0).toDisplay = (s.ledger 0).openBatch b) ∧
      ∀ n, (s.startBatch segments shown).1 = .ok n → n = s.batches.length ∧ missing = 0 ∧
        js.length = (codePlaces segments).length := by
  unfold startBatch
  dsimp only
  generalize hb : ({ shown, slots := segments, remaining := _, result := _ } : Batch) = b
  obtain ⟨js, hasked, hjs, hdisplay, hok⟩ := requestSlots_spec { s with batches := s.batches ++ [b] }
    s.batches.length segments (codePlaces segments) fun _ h => h
  have hopen : (ledger { s with batches := s.batches ++ [b] } 0).toDisplay = (s.ledger 0).openBatch b.bare := by
    simp [ledger, Display.openBatch]
  generalize requestSlots { s with batches := s.batches ++ [b] } s.batches.length segments (codePlaces segments) = p
    at hjs hdisplay hok
  obtain ⟨res, t⟩ := p
  dsimp only at hjs hdisplay hok ⊢
  have hnodup := nodup_codePlaces segments
  -- what a fault has kept from being asked for stays missing
  refine ⟨js, (codePlaces segments).length - js.length, hasked, hjs, ?_, ⟨b.bare, hdisplay.trans hopen⟩, ?_⟩
  · refine ⟨?_, ?_, ?_⟩
    · change Once t.jobs _
      rw [hjs]
      exact hasked.once hnodup hold
    · change ∀ i j place, t.jobs[i]? = some j → _
      rw [hjs]
      exact hasked.code (fun _ h => h) hold
    · have hbare : b.bare = filled shown segments (answerTo t.jobs s.batches.length)
          (undone t.jobs s.batches.length + ((codePlaces segments).length - js.length)) := by
        have hanswer := hasked.answerTo_eq_none hnodup hold
        have hlen := hasked.length
        have hleft : js.length + ((codePlaces segments).length - js.length) = (codePlaces segments).length := by omega
        rw [hjs, hasked.undone_eq_length hold, hleft, filled, fill_none hanswer, ← hb, Batch.bare]
        cases codePlaces segments <;> simp
      have hbatches : (t.ledger 0).batches = (s.ledger 0).batches ++ [b.bare] :=
        congrArg Display.batches (hdisplay.trans hopen)
      change (t.ledger 0).batches[s.batches.length]? = some (filled _ _ (answerTo t.jobs _) (undone t.jobs _ + _))
      rw [hbatches, ← hbare]
      simp [ledger]
  · intro n hn
    cases res with
    | error f => cases hn
    | ok u =>
      cases hn
      have hlen := hok u rfl
      exact ⟨rfl, by omega, hlen⟩

/-! ## A batch at any time -/

theorem undone_eq_zero_iff {jobs : List Job} : undone jobs n = 0 ↔ ∀ j ∈ jobs, j.fills n = true → j.done = true := by
  rw [undone, List.sum_eq_zero_iff_forall_eq_nat]
  simp only [List.mem_map, forall_exists_index, and_imp, forall_apply_eq_imp_iff₂]
  refine forall₂_congr fun j _ => ?_
  cases hf : j.fills n <;> cases hd : j.done <;> simp [Job.left, hf, hd]

theorem Filling.answerTo_eq_none (h : Filling n shown segments missing c) {place : Nat}
    (hp : place ∉ codePlaces segments) : answerTo c.jobs n place = none := by
  refine Legible.answerTo_eq_none ?_
  intro i j hj hl
  obtain ⟨seg, hseg, hcode, _⟩ := h.code i j place hj hl
  exact hp (mem_codePlaces.mpr ⟨seg, hseg, hcode⟩)

/-- Every code segment of a batch has a job of its own. -/
def Covers (n : Nat) (segments : List Segment) (jobs : List Job) : Prop :=
  ∀ place ∈ codePlaces segments, ∃ (i : Nat) (j : Job), jobs[i]? = some j ∧ j.listener = .slot n place

theorem Asked.covers {jobs js : List Job} (h : Asked n segments (codePlaces segments) js)
    (hlen : js.length = (codePlaces segments).length) : Covers n segments (jobs ++ js) := by
  intro place hp
  obtain ⟨p, hlt, hget⟩ := List.getElem_of_mem hp
  have hp' : js[p]? = some js[p] := List.getElem?_eq_getElem (hlen ▸ hlt)
  obtain ⟨place', _, hplace, _, _, hl, _⟩ := h.job p _ hp'
  rw [List.getElem?_eq_getElem hlt, hget, Option.some.injEq] at hplace
  refine ⟨jobs.length + p, js[p], ?_, by rw [hl, hplace]⟩
  rw [List.getElem?_append_right (Nat.le_add_right _ _), Nat.add_sub_cancel_left, hp']

theorem Course.covers {as : List Act} (h : Course s as t) (hc : Covers n segments s.jobs) :
    Covers n segments t.jobs := by
  intro place hp
  obtain ⟨i, j, hj, hl⟩ := hc place hp
  obtain ⟨j', hj', hl', _⟩ := h.listener hj
  exact ⟨i, j', hj', hl'.trans hl⟩

theorem Filling.undone_eq_zero_iff (h : Filling n shown segments missing c) (hcover : Covers n segments c.jobs) :
    undone c.jobs n = 0 ↔ ∀ place ∈ codePlaces segments, (answerTo c.jobs n place).isSome = true := by
  rw [Service.undone_eq_zero_iff]
  constructor
  · intro hdone place hp
    obtain ⟨i, j, hj, hl⟩ := hcover place hp
    rw [answerTo_eq_outcome h.once hj hl]
    exact hdone j (List.mem_of_getElem? hj) (by simp [Job.fills, hl])
  · intro hall j hj hfills
    obtain ⟨i, hi⟩ := List.getElem?_of_mem hj
    unfold Job.fills at hfills
    split at hfills
    · rename_i b place hl
      cases of_decide_eq_true hfills
      obtain ⟨seg, hseg, hcode, _⟩ := h.code i j place hi hl
      have hsome := hall place (mem_codePlaces.mpr ⟨seg, hseg, hcode⟩)
      rwa [answerTo_eq_outcome h.once hi hl] at hsome
    · cases hfills

/-- An answer is final. -/
theorem Course.answerTo_eq {as : List Act} (h : Course s as t) (hf : Filling n shown segments missing (s.ledger 0))
    {place : Nat} {o : Outcome} (ho : answerTo s.jobs n place = some o) : answerTo t.jobs n place = some o := by
  obtain ⟨j, hj, hl, hout⟩ : ∃ j ∈ s.jobs, j.listener = .slot n place ∧ j.outcome = some o := by
    unfold answerTo at ho
    obtain ⟨j, hfind, hout⟩ := Option.bind_eq_some_iff.mp ho
    exact ⟨j, List.mem_of_find?_eq_some hfind, by simpa using List.find?_some hfind, hout⟩
  obtain ⟨i, hi⟩ := List.getElem?_of_mem hj
  obtain ⟨j', hj', ho', hl'⟩ := h.outcome hi hout
  exact (answerTo_eq_outcome (h.filling hf).once hj' (hl'.trans hl)).trans ho'

/-- Each code segment has one job of its own, which was asked for its content, and text has none. -/
structure OwnJobs (s : Service) (n : Nat) (segments : List Segment) : Prop where
  code : ∀ (place : Nat) (seg : Segment), segments[place]? = some seg → seg.isCode = true →
    ∃ (i : Nat) (j : Job), s.jobs[i]? = some j ∧ j.listener = .slot n place ∧ j.content = seg.content ∧
      j.told = (answerTo s.jobs n place).toList ∧
      ∀ (i' : Nat) (j' : Job), s.jobs[i']? = some j' → j'.listener = .slot n place → i' = i
  text : ∀ (place : Nat) (seg : Segment), segments[place]? = some seg → seg.isCode = false →
    answerTo s.jobs n place = none

/-- The slots of a batch are its segments with the answers so far, of the same kinds and languages, and they are
its result if and only if there is an answer for each code segment. -/
structure Gathers (b : Batch) (shown : Shown) (segments : List Segment) (answer : Nat → Option Outcome) : Prop where
  shown_eq : b.shown = shown
  slots : b.slots = fill answer segments
  kinds : b.slots.map Segment.kind = segments.map Segment.kind
  langs : b.slots.map Segment.lang = segments.map Segment.lang
  result : b.result = if ∀ place ∈ codePlaces segments, (answer place).isSome = true then some b.slots else none

theorem Filling.ownJobs (h : Filling n shown segments missing (s.ledger 0)) (hs : Sound (s.ledger 0))
    (hcover : Covers n segments s.jobs) : s.OwnJobs n segments := by
  constructor
  · intro place seg hseg hcode
    obtain ⟨i, j, hj, hl⟩ := hcover place (mem_codePlaces.mpr ⟨seg, hseg, hcode⟩)
    obtain ⟨seg', hseg', _, hcontent⟩ := h.code i j place hj hl
    cases hseg.symm.trans hseg'
    refine ⟨i, j, hj, hl, hcontent, ?_, fun i' j' hj' hl' => h.once i' i j' j place hj' hj hl' hl⟩
    have hanswer : answerTo s.jobs n place = j.outcome := answerTo_eq_outcome h.once hj hl
    rw [hanswer]
    exact hs.told i j hj
  · intro place seg hseg htext
    refine h.answerTo_eq_none ?_
    intro hp
    obtain ⟨seg', hseg', hcode⟩ := mem_codePlaces.mp hp
    cases hseg.symm.trans hseg'
    exact nomatch htext.symm.trans hcode

theorem Filling.gathers {s : Service} (h : Filling n shown segments 0 (s.ledger 0))
    (hcover : Covers n segments s.jobs) :
    ∃ b, s.batches[n]? = some b ∧ Gathers b shown segments (answerTo s.jobs n) := by
  obtain ⟨b, hb, hbare⟩ := h.exists_batch
  have hslots : b.slots = fill (answerTo s.jobs n) segments := congrArg Batch.slots hbare
  refine ⟨b, hb, congrArg Batch.shown hbare, hslots, ?_, ?_, ?_⟩
  · rw [hslots, map_kind_fill]
  · rw [hslots, map_lang_fill]
  · have hresult : b.result = if undone s.jobs n + 0 = 0 then some (fill (answerTo s.jobs n) segments) else none :=
      congrArg Batch.result hbare
    rw [hresult, hslots]
    exact if_congr (h.undone_eq_zero_iff hcover) rfl rfl

/-- A result is final. -/
theorem Course.result {as : List Act} (h : Course s as t) (hf : Filling n shown segments 0 (s.ledger 0))
    (hcover : Covers n segments s.jobs) {b : Batch} (hb : s.batches[n]? = some b) {r : List Segment}
    (hr : b.result = some r) : ∃ b', t.batches[n]? = some b' ∧ b'.result = some r := by
  have hf' := h.filling hf
  obtain ⟨b₁, hb₁, hgathers⟩ := hf.gathers hcover
  cases hb.symm.trans hb₁
  obtain ⟨b', hb', hgathers'⟩ := hf'.gathers (h.covers hcover)
  refine ⟨b', hb', ?_⟩
  have hall : ∀ place ∈ codePlaces segments, (answerTo s.jobs n place).isSome = true := by
    by_contra hno
    rw [hgathers.result, if_neg hno] at hr
    cases hr
  -- every place has its answer already, and text never has one
  have hsame : answerTo t.jobs n = answerTo s.jobs n := by
    funext place
    by_cases hp : place ∈ codePlaces segments
    · obtain ⟨o, ho⟩ := Option.isSome_iff_exists.mp (hall place hp)
      rw [ho]
      exact h.answerTo_eq hf ho
    · have hnone := hf'.answerTo_eq_none hp
      exact hnone.trans (hf.answerTo_eq_none hp).symm
  have hslots : b'.slots = b.slots := by rw [hgathers'.slots, hgathers.slots, hsame]
  rw [hgathers'.result, hsame, hslots, ← hgathers.result, hr]

/-- A batch is refused exactly if one of its types needs a run that cannot be started. Otherwise, whatever happens to it,
its slots are the segments with what their jobs have told so far, and it has its result, once and for all, exactly when
every job has landed. A job that lands refreshes the display if the diagnostic is on display, and else leaves it. -/
theorem batch_is_independent_of_order {s₀ : Service} (h₀ : s₀.IsFresh) {as : List Act} (h : Course s₀ as s)
    (shown : Shown) :
    let segments := Message.segments shown.diagnostic.message
    ((∃ f, (s.startBatch segments shown).1 = .error f) ↔ ∃ seg ∈ segments, seg.isCode = true ∧
      s.cache.get? seg.content = none ∧ ∃ c, s.locate.1 = some c ∧ Unusable s.config c) ∧
    ∀ (n : Nat) (t : Service), s.startBatch segments shown = (.ok n, t) →
      ∀ (bs : List Act) (u : Service), Course t bs u → u.OwnJobs n segments ∧
        ∃ b, u.batches[n]? = some b ∧ Gathers b shown segments (answerTo u.jobs n) ∧
          (∀ (cs : List Act) (v : Service) (r : List Segment), Course u cs v → b.result = some r →
            ∃ b', v.batches[n]? = some b' ∧ b'.result = some r) ∧
          ∀ (a : Act) (v : Service) (i place : Nat) (j j' : Job) (o : Outcome), Step u a v →
            u.jobs[i]? = some j → j.listener = .slot n place → j.outcome = none →
            v.jobs[i]? = some j' → j'.outcome = some o →
            (u.isCurrent shown = true → Refreshed u v shown (fill (answerTo v.jobs n) segments) o) ∧
            (u.isCurrent shown = false → SameDisplay u v) := by
  intro segments
  have hs : Sound (s.ledger 0) := h.sound h₀.sound
  obtain ⟨js, missing, hasked, hjs, hfill, _, hok⟩ := startBatch_spec hs.listener_ne segments shown
  refine ⟨exists_startBatch_error_iff s segments shown, ?_⟩
  intro n t hstart bs u hu
  rw [hstart] at hjs hfill hok
  obtain ⟨rfl, rfl, hlen⟩ := hok n rfl
  have hstep : Step s (.move (.startBatch segments shown)) t := by
    have hm : Step s _ (s.make (.startBatch segments shown)) := .move trivial
    rwa [make, hstart] at hm
  have hcover : Covers s.batches.length segments t.jobs := hjs ▸ hasked.covers hlen
  have hsound : Sound (u.ledger 0) := hu.sound (hstep.sound hs)
  have hfu := hu.filling hfill
  have hcu := hu.covers hcover
  refine ⟨hfu.ownJobs hsound hcu, ?_⟩
  obtain ⟨b, hb, hgather⟩ := hfu.gathers hcu
  refine ⟨b, hb, hgather, fun cs v r hv hr => hv.result hfu hcu hb hr, ?_⟩
  intro a v i place j j' o hstep' hj hl hnone hj' ho
  have hv := Course.single hstep'
  have hlands := hstep'.lands hj hnone hj' ho
  obtain ⟨b', hb', _, _, hrefresh, hquiet⟩ := hlands.slot hl hb
  obtain ⟨b'', hb'', hgather'⟩ := (hv.filling hfu).gathers (hv.covers hcu)
  cases hb'.symm.trans hb''
  rw [hgather.shown_eq, hgather'.slots] at hrefresh
  rw [hgather.shown_eq] at hquiet
  exact ⟨hrefresh, hquiet⟩

/-- Two types of which the second lands first. Under a deadline beyond all clocks they are refused. -/
theorem second_type_lands_first :
    let message : Text := "Type '{ name: string; size: number }' is not '{ name: string; size: bigint }'."
    let shown : Shown := ⟨0, { message }⟩
    let segments := Message.segments message
    let s₀ := create .default { fixed := some "prettier" } (fun _ => none)
      fun n _ => { stdout := "type __TSErrorsType__ = string;\n", delay := 9 - n }
    let s := (s₀.display shown (some false)).1
    let u := runSteps 3 (s.startBatch segments shown).2
    let v := u.step?.getD u
    let w := runSteps 3 v
    let refused := create { Config.default with timeoutMs := 10 ^ 200 * 10 ^ 200 } { fixed := some "prettier" }
      (fun _ => none) fun _ _ => {}
    s₀.IsFresh ∧ Course s₀ [.move (.display shown (some false))] s ∧
      (s.startBatch segments shown).1.toOption = some 0 ∧
      (∃ o, Refreshed u v shown (fill (answerTo v.jobs 0) segments) o) ∧
      (∃ b, w.batches[0]? = some b ∧ b.result = some (fill (answerTo w.jobs 0) segments)) ∧
      refused.IsFresh ∧ ∃ f, (refused.startBatch segments shown).1 = .error f := by
  intro message shown segments s₀ s u v w refused
  have hfresh : s₀.IsFresh := isFresh_create ..
  have hshow : Course s₀ [.move (.display shown (some false))] s :=
    .single (.move (m := .display shown (some false)) trivial)
  have hasked : (s.startBatch segments shown).1.toOption = some 0 := by decide +kernel
  have hstart : s.startBatch segments shown = (.ok 0, (s.startBatch segments shown).2) := by
    refine Prod.ext ?_ rfl
    cases h : (s.startBatch segments shown).1 with
    | error f =>
      rw [h] at hasked
      cases hasked
    | ok n =>
      rw [h] at hasked
      cases hasked
      rfl
  obtain ⟨bs, hu⟩ := leads_runSteps 3 (s.startBatch segments shown).2
  obtain ⟨e, hstep⟩ : ∃ e, Step u (.event e) v := step_of_step? (step?_eq_some_getD (by decide +kernel))
  obtain ⟨cs, hw⟩ := leads_runSteps 3 v
  obtain ⟨_, hbatch⟩ := batch_is_independent_of_order hfresh hshow shown
  have hfresh' : refused.IsFresh := isFresh_create ..
  refine ⟨hfresh, hshow, hasked, ?_, ?_, hfresh', ?_⟩
  · obtain ⟨j, hj, hl, hnone⟩ : ∃ j, u.jobs[1]? = some j ∧ j.listener = .slot 0 3 ∧ j.outcome = none := by
      have h : (u.jobs[1]?.any fun j => j.listener = .slot 0 3 ∧ j.outcome = none) = true := by decide +kernel
      simpa [Option.any_eq_true] using h
    obtain ⟨j', hj', hdone⟩ : ∃ j', v.jobs[1]? = some j' ∧ j'.outcome.isSome = true := by
      have h : (v.jobs[1]?.any fun j => j.outcome.isSome) = true := by decide +kernel
      simpa [Option.any_eq_true] using h
    obtain ⟨o, ho⟩ := Option.isSome_iff_exists.mp hdone
    have hcurrent : u.isCurrent shown = true := by decide +kernel
    obtain ⟨_, _, _, _, _, hlands⟩ := hbatch 0 _ hstart bs u hu
    exact ⟨o, (hlands _ v 1 3 j j' o hstep hj hl hnone hj' ho).1 hcurrent⟩
  · obtain ⟨_, b, hb, hgathers, _⟩ := hbatch 0 _ hstart _ w ((hu.snoc hstep).append hw)
    have hall : ((codePlaces segments).all fun place => (answerTo w.jobs 0 place).isSome) = true := by decide +kernel
    refine ⟨b, hb, ?_⟩
    rw [hgathers.result, if_pos (by simpa using hall), hgathers.slots]
  · obtain ⟨hrefused, _⟩ := batch_is_independent_of_order hfresh' Course.nil shown
    have hcode : (segments.any fun seg => seg.isCode) = true := by decide +kernel
    obtain ⟨seg, hmem, hcode⟩ := List.any_eq_true.mp hcode
    obtain ⟨c, hc⟩ : ∃ c, refused.locate.1 = some c := Option.isSome_iff_exists.mp (by decide +kernel)
    exact hrefused.mpr ⟨seg, hmem, hcode, rfl, c, hc, unusable_beyond c⟩

end Service

end Legible
