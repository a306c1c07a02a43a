import Legible.Proofs.Service.Timely
/-!
# Where the entries of the cache come from

Two things write to the cache: a blocking run that succeeds, and the task of a job that finds the result of its run.
The task comes back long after its request, when the job may have its outcome already, or the cache may have been
emptied. `Writes` lists all writers with what they rely on, `Step.stored` says that an act writes at most one entry
and for no other reason, and so every entry goes back to a writer. A blocking request without a formatted text for an
answer is no writer, nor is one on the clock, a job that has its outcome, or one that came to an error.
-/

namespace Legible

/-- The formatter was started, ended well and wrote something, in which this is the type. -/
structure Reply.Succeeds (r : Reply) (text : Text) : Prop where
  started : r.startFault = none
  status : r.status = 0
  stdout : r.stdout ≠ []
  text : text = Wrapping.unwrap r.stdout

theorem Association.mem_assign {α β : Type} [DecidableEq α] {pairs : List (α × β)} {key : α} {b : β} {p : α × β}
    (h : p ∈ assign pairs key b) : p = (key, b) ∨ p ∈ pairs := by
  induction pairs with
  | nil => exact .inl (List.mem_singleton.mp h)
  | cons q r ih =>
    rw [assign] at h
    split at h
    · rename_i hkey
      rcases List.mem_cons.mp h with rfl | h
      · exact .inl (by rw [hkey])
      · exact .inr (List.mem_cons_of_mem _ h)
    · rcases List.mem_cons.mp h with rfl | h
      · exact .inr List.mem_cons_self
      · exact (ih h).imp_right (List.mem_cons_of_mem _)

theorem Cache.mem_entries_set {c : Cache} {content text : Text} {p : Nat × CacheEntry}
    (h : p ∈ (c.set content text).entries) : p = (cacheKey content, ⟨content, text⟩) ∨ p ∈ c.entries := by
  by_cases hoff : c.IsOff
  · rw [set_of_isOff hoff] at h
    exact .inr h
  · rw [set_of_not_isOff hoff] at h
    -- a full cache is emptied first
    refine (Association.mem_assign h).imp_right fun hkept => ?_
    unfold kept at hkept
    split at hkept
    · cases hkept
    · exact hkept

theorem ProcessResult.ok_iff (r : ProcessResult) : r.ok = true ↔ r.status = 0 ∧ r.stdout ≠ [] := by
  simp [ProcessResult.ok]

theorem ofResult_eq_success_iff {content text : Text} {argv : List Text} {r : Reply} (hstart : r.startFault = none) :
    Outcome.ofResult content (Service.resultOf argv r) = ⟨text, none⟩ ↔ r.Succeeds text := by
  unfold Outcome.ofResult
  split
  · rename_i hok
    obtain ⟨hstatus, hout⟩ := (ProcessResult.ok_iff _).mp hok
    exact ⟨fun h => ⟨hstart, hstatus, hout, (congrArg Outcome.text h).symm⟩, fun h => by rw [h.text]; rfl⟩
  · rename_i hok
    exact iff_of_false (fun h => nomatch congrArg Outcome.error h) fun h =>
      hok ((ProcessResult.ok_iff _).mpr ⟨h.status, h.stdout⟩)

namespace Service

variable {s s₀ t : Service} {a : Act} {as : List Act} {n : Nat} {j : Job} {content text : Text}

/-- Why an act between `s` and `t` writes an entry. -/
inductive Writes (s t : Service) (content text : Text) : Act → Prop
  /-- The program puts it there. -/
  | own : Writes s t content text (.move (.store content text))
  /-- A blocking run of the alias succeeded in time, and its text is the answer. -/
  | blocking {run : Run} : t.runs = s.runs ++ [run] → run.stdin = Wrapping.wrap content →
      (s.formatter s.runs.length run).hangs = false → (s.formatter s.runs.length run).Succeeds text →
      (s.formatBlocking content).1 = .ok ⟨text, none⟩ → Writes s t content text (.move (.formatBlocking content))
  /-- The task of a job that has no outcome yet goes on with the reply to its run of the alias, and the job comes to
  the text in this act. -/
  | live {n k : Nat} {j j' : Job} {r : Reply} : s.jobs[n]? = some j → j.done = false → j.content = content →
      t.runs[k]? = some ⟨j.argv, Wrapping.wrap content, none⟩ →
      s.formatter k ⟨j.argv, Wrapping.wrap content, none⟩ = r →
      (j.task = .finished r ∨ j.task = .ready ∧ k = s.runs.length) → r.Succeeds text →
      t.jobs[n]? = some j' → j'.outcome = some ⟨text, none⟩ → Writes s t content text (.event (.resume n))

/-- What an act makes of the cache. -/
inductive Stored (s t : Service) (a : Act) : Prop
  | same : t.cache = s.cache → Stored s t a
  | emptied : a = .move .clear ∨ a = .move .reset → t.cache = s.cache.clear → Stored s t a
  | written {content text : Text} : Writes s t content text a → t.cache = s.cache.set content text → Stored s t a

/-! ## Blocking runs -/

theorem conclude_cases (s : Service) (content : Text) (r : ProcessResult) :
    (s.conclude content r).2.cache = s.cache ∨
    ∃ text, (s.conclude content r).1 = ⟨text, none⟩ ∧ Outcome.ofResult content r = ⟨text, none⟩ ∧
      (s.conclude content r).2 = { s with cache := s.cache.set content text } := by
  unfold conclude
  dsimp only
  split
  · rename_i hok
    have ho : Outcome.ofResult content r = ⟨(Outcome.ofResult content r).text, none⟩ := by rw [← hok]
    exact .inr ⟨_, ho, ho, rfl⟩
  · exact .inl rfl

theorem runBlocking_cases (s : Service) (content : Text) (argv : List Text) :
    (s.runBlocking content argv).2.cache = s.cache ∨
    ∃ text run, (s.runBlocking content argv).1 = ⟨text, none⟩ ∧ (s.runBlocking content argv).2.runs = s.runs ++ [run] ∧
      run.stdin = Wrapping.wrap content ∧ (s.formatter s.runs.length run).hangs = false ∧
      (s.formatter s.runs.length run).Succeeds text ∧
      (s.runBlocking content argv).2.cache = s.cache.set content text := by
  unfold runBlocking run
  dsimp only
  split
  · exact .inl rfl
  rename_i hstart
  split
  · exact .inl rfl
  rename_i hhangs
  refine (conclude_cases _ content _).imp_right ?_
  rintro ⟨text, ho, hresult, hconclude⟩
  rw [hconclude]
  exact ⟨text, _, ho, rfl, rfl, by simpa using hhangs, (ofResult_eq_success_iff hstart).mp hresult, rfl⟩

/-- A run that finishes in time and succeeds gives the type its text, which enters the cache. -/
theorem runBlocking_of_succeeds {argv : List Text}
    (hhangs : (s.formatter s.runs.length ⟨argv, Wrapping.wrap content, some s.config.timeoutMs⟩).hangs = false)
    (h : (s.formatter s.runs.length ⟨argv, Wrapping.wrap content, some s.config.timeoutMs⟩).Succeeds text) :
    s.runBlocking content argv = (⟨text, none⟩,
      { s with
        runs := s.runs ++ [⟨argv, Wrapping.wrap content, some s.config.timeoutMs⟩]
        cache := s.cache.set content text }) := by
  unfold runBlocking run
  dsimp only
  generalize s.formatter s.runs.length ⟨argv, Wrapping.wrap content, some s.config.timeoutMs⟩ = r at hhangs h
  have hresult : Outcome.ofResult content (resultOf argv r) = ⟨text, none⟩ := (ofResult_eq_success_iff h.started).mpr h
  simp only [h.started, hhangs, Bool.false_eq_true, if_false, conclude, hresult]

/-- A type that is in the cache is answered from there. -/
theorem formatBlocking_of_hit (hhit : s.cache.get? content = some text) :
    s.formatBlocking content = (.ok ⟨text, none⟩, s) := by
  unfold formatBlocking
  rw [hhit]

/-- A type that is not in the cache is formatted by a run, if one can be started. -/
theorem formatBlocking_of_miss {c : Command} (hmiss : s.cache.get? content = none) (hlocated : s.locate.1 = some c) :
    s.formatBlocking content = match s.argv c with
      | .error f => (.error f, s.locate.2)
      | .ok argv => (.ok (s.locate.2.runBlocking content argv).1, (s.locate.2.runBlocking content argv).2) := by
  have hargv : s.locate.2.argv c = s.argv c := rfl
  unfold formatBlocking
  rw [hmiss]
  generalize s.locate = p at hlocated hargv
  obtain ⟨found, u⟩ := p
  obtain rfl : found = some c := hlocated
  cases hread : s.argv c <;> simp only [hargv, hread]

theorem stored_formatBlocking (s : Service) (content : Text) :
    Stored s (s.formatBlocking content).2 (.move (.formatBlocking content)) := by
  cases hhit : s.cache.get? content with
  | some t => exact .same (by rw [formatBlocking_of_hit hhit])
  | none =>
    cases hlocated : s.locate.1 with
    | none =>
      refine .same ?_
      have hsame : s.locate.2.cache = s.cache := rfl
      unfold formatBlocking
      rw [hhit]
      generalize s.locate = p at hlocated hsame
      obtain ⟨found, u⟩ := p
      obtain rfl : found = none := hlocated
      exact hsame
    | some c =>
      have hformat := formatBlocking_of_miss hhit hlocated
      cases ha : s.argv c with
      | error f =>
        rw [ha] at hformat
        exact .same (by rw [hformat]; rfl)
      | ok argv =>
        rw [ha] at hformat
        rcases runBlocking_cases s.locate.2 content argv with hsame | ⟨text, run, ho, hruns, hstdin, hhangs, hok, hset⟩
        · exact .same (by rw [hformat]; exact hsame)
        · have hruns' : (s.formatBlocking content).2.runs = s.runs ++ [run] := by
            rw [hformat]
            exact hruns
          refine .written (.blocking hruns' hstdin hhangs hok ?_) ?_
          · exact (congrArg Prod.fst hformat).trans (congrArg Except.ok ho)
          · rw [hformat]
            exact hset

/-! ## Tasks -/

/-- Every job that is to run the formatter gives it the alias of its type. -/
def Wraps (c : Ledger) : Prop :=
  ∀ (n : Nat) (j : Job), c.jobs[n]? = some j → j.task ≠ .none → j.wrapped = Wrapping.wrap j.content

theorem Effect.wraps {c₀ c d : Ledger} (h : Effect a c₀ c d) (hc : Wraps c) : Wraps d := by
  intro n j' hj' ht'
  rcases h.turned hj' with ⟨j, hj, hturn⟩ | ⟨_, _, _, _, _, hask, _⟩
  · cases hturn with
    | keep => exact hc n _ hj ht'
    | task _ ht => exact hc n j hj ht
    | fix => exact hc n j hj ht'
  · cases hask with
    | hit | missing => exact absurd rfl ht'
    | started => rfl

theorem Effects.wraps {c₀ c d : Ledger} (h : Effects a c₀ c d) (hc : Wraps c) : Wraps d := by
  induction h with
  | refl => exact hc
  | tail _ heff ih => exact heff.wraps ih

theorem Step.wraps (h : Step s a t) (hs : Wraps (s.ledger 0)) : Wraps (t.ledger 0) := h.effects.wraps hs

theorem IsFresh.wraps (h : s.IsFresh) : Wraps (s.ledger 0) := by
  simp [Wraps, ledger, h.jobs]

theorem Course.wraps (h : Course s as t) (hs : Wraps (s.ledger 0)) : Wraps (t.ledger 0) :=
  h.invariant (fun s => Wraps (s.ledger 0)) hs fun _ _ _ hv hstep => hstep.wraps hv

/-- The task of a job without an outcome has the reply to its run: if that succeeded, its text is stored for the type
of the job, which comes to it. -/
theorem finishTask_cases (hj : s.jobs[n]? = some j) (hd : j.done = false) (r : Reply) :
    (s.finishTask n j r).cache = s.cache ∨
    ∃ text, Outcome.ofResult j.content (resultOf j.argv r) = ⟨text, none⟩ ∧
      (s.finishTask n j r).cache = s.cache.set j.content text ∧
      ∃ j', (s.finishTask n j r).jobs[n]? = some j' ∧ j'.outcome = some ⟨text, none⟩ := by
  have hnone : j.outcome = none := by simpa [Promise.done] using hd
  rw [finishTask, if_neg (by simp [hd])]
  dsimp only
  rcases conclude_cases s j.content (resultOf j.argv r) with hsame | ⟨text, ho, hresult, hconclude⟩
  · exact .inl ((cache_completeInTask ..).trans hsame)
  · rw [ho, hconclude]
    have htold := told_completeInTask (s := { s with cache := s.cache.set j.content text }) hj hnone ⟨text, none⟩
    obtain ⟨j', hj', _, hout⟩ := htold.job
    exact .inr ⟨text, hresult, htold.cache, j', hj', hout⟩

theorem runs_finishTask (s : Service) (n : Nat) (j : Job) (r : Reply) : (s.finishTask n j r).runs = s.runs := by
  unfold finishTask
  split
  · rfl
  · refine (tells_completeInTask ..).runs.trans ?_
    split <;> rfl

/-- A task that has the reply to its run of the alias stores a success, if its job has no outcome yet. -/
theorem stored_finishTask {k : Nat} {r : Reply} (hj : s.jobs[n]? = some j) (hd : j.done = false) (c : Clock)
    (runs : List Run) (hrun : runs[k]? = some ⟨j.argv, Wrapping.wrap j.content, none⟩)
    (hr : s.formatter k ⟨j.argv, Wrapping.wrap j.content, none⟩ = r) (hstart : r.startFault = none)
    (htask : j.task = .finished r ∨ j.task = .ready ∧ k = s.runs.length) :
    Stored s (finishTask { s with clock := c, runs } n j r) (.event (.resume n)) := by
  rcases finishTask_cases (s := { s with clock := c, runs }) hj hd r with hsame | ⟨text, hresult, hset, j', hj', hout⟩
  · exact .same hsame
  · have hsuccess := (ofResult_eq_success_iff hstart).mp hresult
    exact .written (.live hj hd rfl (by rw [runs_finishTask]; exact hrun) hr htask hsuccess hj' hout) hset

theorem stored_resume (hs : Sound (s.ledger 0)) (hw : Wraps (s.ledger 0)) (c : Clock) (n : Nat) :
    Stored s (resume { s with clock := c } n) (.event (.resume n)) := by
  cases hj : s.jobs[n]? with
  | none =>
    refine .same ?_
    simp only [resume, hj]
  | some j =>
    by_cases hd : j.done = true
    · exact .same (cache_handle_of_done (s := { s with clock := c }) (e := .resume n) hj hd rfl)
    have hd : j.done = false := by simpa using hd
    cases ht : j.task with
    | ready =>
      -- the run is the next one, and its reply may be there at once
      have hwrapped : j.wrapped = Wrapping.wrap j.content := hw n j hj (by simp [ht])
      simp only [resume, hj, ht, run, hwrapped]
      split
      · exact .same (cache_completeInTask ..)
      rename_i hstart
      split
      · exact stored_finishTask hj hd c _ List.getElem?_concat_length rfl hstart (.inr ⟨ht, rfl⟩)
      · exact .same rfl
    | finished r =>
      obtain ⟨k, hk, hr, hstart⟩ := hs.ran n j r hj (by simp [ht, Task.reply?])
      rw [hw n j hj (by simp [ht])] at hk hr
      simp only [resume, hj, ht]
      exact stored_finishTask hj hd c s.runs hk hr hstart (.inl ht)
    | stopping => exact .same (by simp only [resume, hj, ht]; rfl)
    | none | running | ended => exact .same (by simp only [resume, hj, ht])

/-! ## Acts and courses -/

/-- The act may write to the cache or empty it, if it is no job's. -/
def Act.Touches : Act → Prop
  | .move (.store _ _) | .move (.formatBlocking _) | .move .clear | .move .reset => True
  | _ => False

theorem Effects.cache_of_program {c₀ c d : Ledger} (h : Effects a c₀ c d) (hjob : a.job? = none) (ha : ¬ a.Touches) :
    d.cache = c.cache := by
  induction h with
  | refl => rfl
  | tail _ heff ih =>
    refine Eq.trans ?_ ih
    cases heff with
    | store hstores =>
      cases hstores with
      | own h | blocking h =>
        subst h
        exact absurd trivial ha
      | live h => cases hjob.symm.trans h
    | clear h => rcases h with rfl | rfl <;> exact absurd trivial ha
    | complete h => cases hjob.symm.trans h
    | _ => rfl

theorem Step.stored (h : Step s a t) (hs : Sound (s.ledger 0)) (hw : Wraps (s.ledger 0)) : Stored s t a := by
  have program (hjob : a.job? = none) (ha : ¬ a.Touches) : Stored s t a := .same (h.effects.cache_of_program hjob ha)
  cases h with
  | @move m hm =>
    cases m with
    | store content text => exact .written .own rfl
    | clear => exact .emptied (.inl rfl) rfl
    | reset => exact .emptied (.inr rfl) rfl
    | formatBlocking content => exact stored_formatBlocking s content
    | complete n o => exact .same (s.tells_complete n o).cache
    | _ => exact program rfl id
  | @event e c hp =>
    cases e with
    | resume n => exact stored_resume hs hw c n
    | finish n =>
      refine .same ?_
      rw [handle, finish]
      split <;> rfl
    | expire n =>
      have hstop (u : Service) (task : Task) : (u.stop n task).cache = u.cache := by
        unfold stop
        split <;> rfl
      refine .same ?_
      rw [handle, expire]
      split
      · rfl
      · split
        · rfl
        · exact (cache_completeAlone ..).trans (hstop ..)
    | deliver n o => exact .same (cache_completeAlone ..)
    | rested | wake => exact program rfl id

theorem Course.stored (h : Course s₀ as s) (h₀ : s₀.IsFresh) (hstep : Step s a t) : Stored s t a :=
  hstep.stored (h.sound h₀.sound) (h.wraps h₀.wraps)

/-- Somewhere in the course the service comes from `t` to `u` by this act. -/
def Occurs (s₀ : Service) (as : List Act) (s t : Service) (a : Act) (u : Service) : Prop :=
  ∃ bs cs, as = bs ++ a :: cs ∧ Course s₀ bs t ∧ Step t a u ∧ Course u cs s

theorem Occurs.last (h : Course s₀ as t) (hstep : Step t a s) : Occurs s₀ (as ++ [a]) s t a s :=
  ⟨as, [], rfl, h, hstep, .nil⟩

theorem Occurs.snoc {b : Act} {u v : Service} (h : Occurs s₀ as s t a u) (hstep : Step s b v) :
    Occurs s₀ (as ++ [b]) v t a u := by
  obtain ⟨bs, cs, rfl, ht, hu, hs⟩ := h
  exact ⟨bs, cs ++ [b], by simp, ht, hu, hs.snoc hstep⟩

/-- An entry that was not there at the start has a writer in the course. -/
theorem Course.written (h : Course s₀ as s) (h₀ : s₀.IsFresh) {p : Nat × CacheEntry} (hp : p ∈ s.cache.entries) :
    p ∈ s₀.cache.entries ∨ ∃ t a u, Occurs s₀ as s t a u ∧ Writes t u p.2.raw p.2.formatted a := by
  induction h with
  | nil => exact .inl hp
  | @snoc as a t u h hstep ih =>
    have earlier (hp : p ∈ t.cache.entries) :
        p ∈ s₀.cache.entries ∨ ∃ v b w, Occurs s₀ (as ++ [a]) u v b w ∧ Writes v w p.2.raw p.2.formatted b := by
      refine (ih hp).imp_right ?_
      rintro ⟨v, b, w, hoccurs, hwrites⟩
      exact ⟨v, b, w, hoccurs.snoc hstep, hwrites⟩
    cases h.stored h₀ hstep with
    | same heq => exact earlier (heq ▸ hp)
    | emptied _ heq =>
      rw [heq] at hp
      exact absurd hp List.not_mem_nil
    | written hwrites heq =>
      rw [heq] at hp
      rcases Cache.mem_entries_set hp with rfl | hp
      · exact .inr ⟨t, a, u, .last h hstep, hwrites⟩
      · exact earlier hp

/-- An act about a job writes only the text that the job comes to in this very act. -/
theorem Stored.of_job (h : Stored s t a) (ha : a.job? = some n) :
    t.cache = s.cache ∨ ∃ j j' text, s.jobs[n]? = some j ∧ j.done = false ∧ t.jobs[n]? = some j' ∧
      j'.outcome = some ⟨text, none⟩ := by
  cases h with
  | same h => exact .inl h
  | emptied h => rcases h with rfl | rfl <;> cases ha
  | written h =>
    cases h with
    | own | blocking => cases ha
    | live hj hd _ _ _ _ _ hj' ho =>
      cases ha
      exact .inr ⟨_, _, _, hj, hd, hj', ho⟩

/-- Every entry of the cache was there at the start, was put there by the program, or is the type read in the output of a
run that started, ended well and wrote something, and that was the answer to its blocking request or to a job with no
outcome before. In every course, each further act stores for one of these reasons, empties the cache or leaves it. -/
theorem only_live_successes_enter_the_cache (h₀ : s₀.IsFresh) (h : Course s₀ as s) :
    (∀ p ∈ s.cache.entries, p ∈ s₀.cache.entries ∨
      ∃ t a u, Occurs s₀ as s t a u ∧ Writes t u p.2.raw p.2.formatted a) ∧
    (∀ a t, Step s a t → Stored s t a) ∧
    (∀ content, (∀ text, (s.formatBlocking content).1 ≠ .ok ⟨text, none⟩) →
      (s.formatBlocking content).2.cache = s.cache) ∧
    (∀ content l, (s.request content l).2.cache = s.cache) ∧
    (∀ a t n j, Step s a t → a.job? = some n → s.jobs[n]? = some j → j.done = true → t.cache = s.cache) ∧
    ∀ n j o, s.jobs[n]? = some j → j.outcome = some o → o.error ≠ none →
      ∀ t a u, Occurs s₀ as s t a u → a.job? = some n → u.cache = t.cache := by
  refine ⟨fun p hp => h.written h₀ hp, fun a t => h.stored h₀, ?_, ?_, ?_, ?_⟩
  · intro content hfailed
    cases h.stored h₀ (.move (m := .formatBlocking content) trivial) with
    | same h => exact h
    | emptied h => rcases h with h | h <;> cases h
    | written h =>
      cases h with
      | blocking _ _ _ _ hanswer => exact absurd hanswer (hfailed _)
  · intro content l
    exact (request_frame s content l).1
  · intro a t n j hstep ha hj hdone
    rcases (h.stored h₀ hstep).of_job ha with hsame | ⟨j', _, _, hj', hundone, _⟩
    · exact hsame
    · cases hj.symm.trans hj'
      cases hdone.symm.trans hundone
  · rintro n j o hj ho herror t a u ⟨bs, cs, -, ht, hstep, hu⟩ ha
    rcases (ht.stored h₀ hstep).of_job ha with hsame | ⟨_, j', text, _, _, hj', hout⟩
    · exact hsame
    · -- the job would still have the text for its outcome
      obtain ⟨j'', hj'', hout', _⟩ := hu.outcome hj' hout
      cases hj.symm.trans hj''
      cases ho.symm.trans hout'
      exact absurd rfl herror

/-- Of two types the formatter of the second comes too late: the first alone enters the cache, from its run. -/
theorem punctual_type_enters_the_cache :
    let s := create .default { fixed := some "prettier" } (fun _ => none) fun k _ =>
      { stdout := "type __TSErrorsType__ = { a: 1 };\n", delay := if k = 0 then 5 else 5000 }
    let t := ((s.request "{a:1}" .nobody).2.request "{b:2}" .nobody).2
    let u := runSteps 12 t
    s.IsFresh ∧ u.cache.entries.map (·.2) = [⟨"{a:1}", "{ a: 1 }"⟩] ∧
      u.jobs.map (·.outcome) = [some ⟨"{ a: 1 }", none⟩, some (.failed "{b:2}" .timedOut)] ∧
      ∃ as, Course s as u ∧ (∃ v a w, Occurs s as u v a w ∧ Writes v w "{a:1}" "{ a: 1 }" a) ∧
        ∀ v a w, Occurs s as u v a w → a.job? = some 1 → w.cache = v.cache := by
  intro s t u
  have hfresh : s.IsFresh := isFresh_create ..
  have hentries : u.cache.entries.map (·.2) = [⟨"{a:1}", "{ a: 1 }"⟩] := by decide +kernel
  have houtcomes : u.jobs.map (·.outcome) = [some ⟨"{ a: 1 }", none⟩, some (.failed "{b:2}" .timedOut)] := by
    decide +kernel
  obtain ⟨es, hes⟩ := course_runSteps 12 t
  have hrequests : Course s _ t :=
    (Course.single (.move (m := .request "{a:1}" .nobody) trivial)).snoc (.move (m := .request "{b:2}" .nobody) trivial)
  obtain ⟨as, hcourse⟩ : ∃ as, Course s as u := ⟨_, hrequests.append hes⟩
  obtain ⟨hwriters, -, -, -, -, hfailed⟩ := only_live_successes_enter_the_cache hfresh hcourse
  refine ⟨hfresh, hentries, houtcomes, as, hcourse, ?_, ?_⟩
  · have hmem : (⟨"{a:1}", "{ a: 1 }"⟩ : CacheEntry) ∈ u.cache.entries.map (·.2) := by
      rw [hentries]
      exact List.mem_singleton_self _
    obtain ⟨p, hp, hpe⟩ := List.mem_map.mp hmem
    have hnew : p ∉ s.cache.entries := List.not_mem_nil
    obtain ⟨v, a, w, hoccurs, hwrites⟩ := (hwriters p hp).resolve_left hnew
    rw [hpe] at hwrites
    exact ⟨v, a, w, hoccurs, hwrites⟩
  · have hjob : (u.jobs.map (·.outcome))[1]? = some (some (.failed "{b:2}" .timedOut)) := by
      rw [houtcomes]
      rfl
    rw [List.getElem?_map] at hjob
    obtain ⟨j, hj, hout⟩ := Option.map_eq_some_iff.mp hjob
    exact hfailed 1 j _ hj hout (by simp [Outcome.failed])

end Service

end Legible
