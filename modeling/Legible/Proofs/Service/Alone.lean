import Legible.Proofs.Service.Timely
/-!
# A request alone on the clock

A request that is made when nothing is left to do has the clock for itself: what is still behind timers changes nothing,
and the events about its own job come in the order in which they were caused (`Underway`), until the job tells its
outcome (`Answered`). So it tells what a blocking run from the same state answers, and it leaves the same cache, the same
memory of where the formatter is, and the same calls of the formatter behind. Nothing is assumed of the cache, which may
hold anything for any type.
-/

namespace Legible

/-- The cache behind an answer: a formatted text enters it. -/
def Cache.store (c : Cache) (content : Text) (o : Outcome) : Cache :=
  match o.error with
  | none => c.set content o.text
  | some _ => c

theorem Cache.store_of_ok {o : Outcome} (h : o.error = none) (c : Cache) (content : Text) :
    c.store content o = c.set content o.text := by
  rw [store, h]

theorem Cache.store_of_error {o : Outcome} {message : Text} (h : o.error = some message) (c : Cache) (content : Text) :
    c.store content o = c := by
  rw [store, h]

theorem Clock.pending_of (c : Clock) (n : Nat) : (c.of n).pending = c.pending.filter (·.job? = some n) := by
  simp only [pending, of, List.filter_map, Multiset.filter_coe, List.filter_append]
  rfl

namespace Service

variable {verdict : List Text → Text → Verdict} {s t u : Service} {c : Clock} {e : Event} {j : Job} {m n timeout : Nat}
  {content : Text} {l : Listener} {o : Outcome} {r : Reply} {v : Verdict}

/-- The calls of the formatter: command lines and inputs. -/
def calls (s : Service) : List (List Text × Text) := s.runs.map fun r => (r.argv, r.stdin)

/-- The same was stored, found and called. -/
structure Alike (s t : Service) : Prop where
  cache : t.cache = s.cache
  locator : t.locator = s.locator
  calls : t.calls = s.calls

/-! ## Blocking runs -/

theorem conclude_eq (s : Service) (content : Text) (r : ProcessResult) : ∃ warnings,
    s.conclude content r = (.ofResult content r,
      { s with cache := s.cache.store content (.ofResult content r), warnings }) := by
  unfold conclude
  dsimp only
  split
  · rename_i hok
    exact ⟨s.warnings, by rw [Cache.store_of_ok hok]⟩
  · rename_i herror
    exact ⟨_, by rw [Cache.store_of_error herror]; rfl⟩

/-- A blocking run comes to the outcome of its verdict, and stores it. -/
theorem runBlocking_of_gives {argv : List Text}
    (h : (s.formatter s.runs.length ⟨argv, Wrapping.wrap content, some s.config.timeoutMs⟩).Gives timeout v) :
    ∃ warnings, s.runBlocking content argv = (v.outcome content argv,
      { s with
        runs := s.runs ++ [⟨argv, Wrapping.wrap content, some s.config.timeoutMs⟩]
        cache := s.cache.store content (v.outcome content argv)
        warnings }) := by
  unfold runBlocking run
  dsimp only
  generalize s.formatter s.runs.length ⟨argv, Wrapping.wrap content, some s.config.timeoutMs⟩ = r at h
  rcases Gives.cases h content argv with ⟨reason, hreason, hout⟩ | ⟨hstart, ⟨hhangs, _, hout⟩ | ⟨hhangs, _, _, hout⟩⟩
  · rw [hreason, hout]
    exact ⟨_, rfl⟩
  · obtain ⟨warnings, hconclude⟩ := conclude_eq
      { s with runs := s.runs ++ [⟨argv, Wrapping.wrap content, some s.config.timeoutMs⟩] } content (resultOf argv r)
    rw [hstart, hout]
    dsimp only
    rw [if_neg (by simp [hhangs]), hconclude]
    exact ⟨warnings, rfl⟩
  · rw [hstart, hout]
    dsimp only
    rw [if_pos hhangs]
    exact ⟨s.warnings, rfl⟩

/-- An outcome with an error has the type as it was. -/
theorem text_outcome_of_error {argv : List Text} (h : (v.outcome content argv).error.isSome = true) :
    (v.outcome content argv).text = content := by
  cases v with
  | finished status stdout stderr =>
    rw [Verdict.outcome, Outcome.ofResult] at h ⊢
    split at h
    · cases h
    · rename_i hok
      rw [if_neg hok]
      rfl
  | notStarted => rfl
  | unfinished => rfl

/-! ## Events that change nothing -/

theorem handle_of_isOff (h : s.IsOff e) : handle s e = s := by
  cases e with
  | expire m =>
    obtain ⟨j, hj, hdone⟩ := h
    simp only [handle, expire, hj, hdone, if_true]
  | finish m =>
    obtain ⟨j, hj, htask⟩ := h
    rw [handle, finish]
    split
    · rename_i hrunning
      cases hj.symm.trans hrunning
      exact absurd rfl (htask _)
    · rfl
  | _ => exact h.elim

theorem IsOff.job? (h : s.IsOff e) : ∃ m < s.jobs.length, e.job? = some m := by
  cases e with
  | expire m =>
    obtain ⟨j, hj, _⟩ := h
    exact ⟨m, (List.getElem?_eq_some_iff.mp hj).1, rfl⟩
  | finish m =>
    obtain ⟨j, hj, _⟩ := h
    exact ⟨m, (List.getElem?_eq_some_iff.mp hj).1, rfl⟩
  | _ => exact h.elim

/-- Whether an event changes anything is a matter of its job. -/
theorem IsOff.of_job (h : s.IsOff e) (he : e.job? = some m) (hjob : t.jobs[m]? = s.jobs[m]?) : t.IsOff e := by
  cases e with
  | expire i =>
    cases he
    rw [IsOff, hjob]
    exact h
  | finish i =>
    cases he
    rw [IsOff, hjob]
    exact h
  | _ => exact h.elim

theorem mem_pending_wake {ws : List Waiter} (he : e ∈ Clock.pending { c with queue := c.queue ++ ws.map .wake }) :
    e ∈ c.pending ∨ e.job? = none := by
  simp only [Clock.pending, Multiset.mem_coe, List.mem_append, List.mem_map] at he ⊢
  rcases he with (he | ⟨w, _, rfl⟩) | he
  · exact .inl (.inl he)
  · exact .inr rfl
  · exact .inl (.inr he)

/-- What an event about a job causes is about the job, or wakes someone. -/
theorem Altered.mem_pending (h : Altered n s t) (he : e ∈ t.clock.pending) :
    e ∈ s.clock.pending ∨ e.job? = some n ∨ e.job? = none := by
  induction h with
  | refl => exact .inl he
  | tail _ halt ih =>
    cases halt with
    | task => exact ih he
    | push =>
      rcases Multiset.mem_cons.mp (Clock.pending_push .. ▸ he) with rfl | he
      · exact .inr (.inl rfl)
      · exact ih he
    | after delay =>
      rcases Multiset.mem_cons.mp (Clock.pending_after .. ▸ he) with rfl | he
      · exact .inr (.inl rfl)
      · exact ih he
    | complete o =>
      obtain ⟨ws, hclock⟩ := (tells_complete _ n o).clock
      rw [hclock] at he
      rcases mem_pending_wake he with he | hnobody
      · exact ih he
      · exact .inr (.inr hnobody)
    | aside => exact ih he

/-- Only one job has something left to do. -/
structure Lone (n : Nat) (s : Service) : Prop where
  sorted : s.clock.Sorted
  noneReady : s.NoneReady
  others : ∀ e ∈ s.clock.pending, e.job? = some n ∨ e.job? = none ∨ s.IsOff e

/-- What happens next leaves it at that. -/
theorem Lone.handle (h : Lone n s) (hnext : s.clock.next? = some (e, c)) : Lone n (handle { s with clock := c } e) := by
  have hpending : s.clock.pending = e ::ₘ c.pending := Clock.pending_of_next? hnext
  have hsorted : c.Sorted := h.sorted.next? hnext
  have hready := (h.noneReady.idles (.event hpending)).waits h.noneReady
  -- apart from what the event causes, what was off is off
  have hothers : ∀ e' ∈ c.pending, e'.job? = some n ∨ e'.job? = none ∨ s.IsOff e' := fun e' he' =>
    h.others e' (hpending ▸ Multiset.mem_cons_of_mem he')
  rcases h.others e (hpending ▸ Multiset.mem_cons_self ..) with he | he | hoff
  · have haltered := altered_handle he { s with clock := c }
    refine ⟨haltered.apart.sorted hsorted, hready, fun e' he' => ?_⟩
    rcases haltered.mem_pending he' with he' | hown
    · rcases hothers e' he' with hown | hnobody | hoff
      · exact .inl hown
      · exact .inr (.inl hnobody)
      · obtain ⟨m, _, hm⟩ := hoff.job?
        by_cases hmn : m = n
        · exact .inl (hmn ▸ hm)
        · exact .inr (.inr (hoff.of_job hm (haltered.apart.job m hmn)))
    · exact hown.imp_right .inl
  · obtain ⟨ws, waits, awake, hhandle⟩ := NoneReady.handle_aside (s := { s with clock := c }) h.noneReady he
    rw [hhandle] at hready ⊢
    refine ⟨hsorted, hready, fun e' he' => ?_⟩
    rcases mem_pending_wake he' with he' | hnobody
    · exact hothers e' he'
    · exact .inr (.inl hnobody)
  · rw [handle_of_isOff (s := { s with clock := c }) hoff] at hready ⊢
    exact ⟨hsorted, hready, hothers⟩

/-! ## On the way to an answer -/

/-- A request, and what is to come of it. -/
structure Inquiry where
  /-- The number of its job. -/
  job : Nat
  content : Text
  listener : Listener
  outcome : Outcome
  /-- The service behind a blocking run. -/
  behind : Service

variable {q : Inquiry}

/-- A job for the request that has told nothing. -/
structure Inquiry.Asked (q : Inquiry) (j : Job) : Prop where
  content : j.content = q.content
  listener : j.listener = q.listener
  outcome : j.outcome = none
  told : j.told = []

/-- The request is answered, once, and all is as behind a blocking run. -/
structure Inquiry.Answered (q : Inquiry) (s : Service) : Prop where
  alike : Alike q.behind s
  job : ∃ j, s.jobs[q.job]? = some j ∧ j.content = q.content ∧ j.listener = q.listener ∧ j.outcome = some q.outcome ∧
    j.told = [q.outcome] ∧ j.task ≠ .ready
  received : q.listener = .program → s.received = some q.outcome

/-- What is missing until all is as behind a blocking run: a run, if its task is ready, and a success in the cache, if
it has a task. Nobody is woken before. -/
structure Inquiry.Owes (verdict : List Text → Text → Verdict) (timeout : Nat) (q : Inquiry) (s : Service) (j : Job) :
    Prop where
  asked : q.Asked j
  awake : s.awake = q.behind.awake
  locator : s.locator = q.behind.locator
  cache : q.behind.cache = if j.task = .none then s.cache else s.cache.store j.content q.outcome
  calls : q.behind.calls = s.calls ++ if j.task = .ready then [(j.argv, j.wrapped)] else []
  gives : j.task = .ready →
    (s.formatter s.runs.length ⟨j.argv, j.wrapped, none⟩).Gives timeout (verdict j.argv j.wrapped)
  nobody : ∀ e ∈ s.clock.pending, e.job? ≠ none
  undelivered : j.task ≠ .none → ∀ o, .deliver q.job o ∉ s.clock.pending

/-- The request is on its way to its answer. -/
def Inquiry.Underway (verdict : List Text → Text → Verdict) (timeout : Nat) (q : Inquiry) (s : Service) : Prop :=
  ∃ j, s.jobs[q.job]? = some j ∧ q.Owes verdict timeout s j ∧
    Phase verdict (fun _ => .ok q.outcome) timeout (s.clock.of q.job) q.job j

/-! ### The outcome is told -/

theorem received_complete (hj : s.jobs[n]? = some j) (hnone : j.outcome = none) (hl : j.listener = .program)
    (o : Outcome) : (s.complete n o).1.received = some o := by
  have hundone : ¬ j.done = true := by simp [Promise.done, hnone]
  simp only [complete, hj, hundone, hl]
  rfl

/-- Telling the outcome is all that is left to do. -/
theorem answered_of_tells {task : Task} (h : Tells s t) (hj : s.jobs[q.job]? = some j) (hasked : q.Asked j)
    (halike : Alike q.behind s) (htask : task ≠ .ready)
    (hjob : t.jobs[q.job]? = some { j with toPromise := j.fix q.outcome, task })
    (hreceived : t.received = (s.complete q.job q.outcome).1.received) : q.Answered t where
  alike := by
    have hcalls : t.calls = s.calls := by rw [calls, h.runs, calls]
    exact ⟨h.cache.trans halike.cache, h.setting.locator.trans halike.locator, hcalls.trans halike.calls⟩
  job := ⟨_, hjob, hasked.content, hasked.listener, rfl, by simp [Promise.fix, hasked.told], htask⟩
  received hl := hreceived.trans (received_complete hj hasked.outcome (hasked.listener.trans hl) _)

theorem answered_completeInTask (hj : s.jobs[q.job]? = some j) (hasked : q.Asked j) (halike : Alike q.behind s) :
    q.Answered (s.completeInTask q.job q.outcome) := by
  have htells := tells_completeInTask s q.job q.outcome
  have hjob := getElem?_jobs_complete hj hasked.outcome q.outcome
  have hreceived : (s.completeInTask q.job q.outcome).received = (s.complete q.job q.outcome).1.received := by
    unfold completeInTask
    split <;> rename_i h <;> rw [h] <;> rfl
  obtain ⟨ending, hended⟩ : ∃ ending, (s.completeInTask q.job q.outcome).jobs[q.job]?
      = some { j with toPromise := j.fix q.outcome, task := .ended ending } := by
    unfold completeInTask
    split <;> rename_i h <;> rw [h] at hjob <;> exact ⟨_, getElem?_modifyJob hjob _⟩
  exact answered_of_tells htells hj hasked halike (by simp) hended hreceived

theorem answered_completeAlone (hj : s.jobs[q.job]? = some j) (hasked : q.Asked j) (halike : Alike q.behind s)
    (htask : j.task ≠ .ready) : q.Answered (s.completeAlone q.job q.outcome) := by
  have htells := tells_completeAlone s q.job q.outcome
  have hjob := getElem?_jobs_complete hj hasked.outcome q.outcome
  have hsame : (s.completeAlone q.job q.outcome).jobs = (s.complete q.job q.outcome).1.jobs ∧
      (s.completeAlone q.job q.outcome).received = (s.complete q.job q.outcome).1.received := by
    unfold completeAlone
    split <;> rename_i h <;> rw [h] <;> exact ⟨rfl, rfl⟩
  exact answered_of_tells htells hj hasked halike htask (hsame.1 ▸ hjob) hsame.2

/-- The formatter has finished: its result is stored and told. -/
theorem answered_finishTask (hj : s.jobs[q.job]? = some j) (hasked : q.Asked j)
    (hcache : q.behind.cache = s.cache.store j.content q.outcome) (hlocator : s.locator = q.behind.locator)
    (hcalls : s.calls = q.behind.calls) (hout : q.outcome = .ofResult j.content (resultOf j.argv r)) :
    q.Answered (s.finishTask q.job j r) := by
  have hundone : ¬ j.done = true := by simp [Promise.done, hasked.outcome]
  obtain ⟨warnings, hconclude⟩ := conclude_eq s j.content (resultOf j.argv r)
  rw [finishTask, if_neg hundone, hconclude, ← hout]
  exact answered_completeInTask hj hasked ⟨hcache.symm, hlocator, hcalls⟩

/-! ### The next event -/

/-- The task of a job goes on. -/
theorem Inquiry.Owes.proceed {task : Task} (h : q.Owes verdict timeout s j) (hold : j.task ≠ .none)
    (hnone : task ≠ .none) (hready : task ≠ .ready) (hawake : t.awake = s.awake) (hlocator : t.locator = s.locator)
    (hcache : t.cache = s.cache) (hcalls : t.calls = q.behind.calls)
    (hpending : ∀ e ∈ t.clock.pending, e ∈ s.clock.pending ∨ e = .resume q.job ∨ e = .finish q.job) :
    q.Owes verdict timeout t { j with task } where
  asked := ⟨h.asked.content, h.asked.listener, h.asked.outcome, h.asked.told⟩
  awake := hawake.trans h.awake
  locator := hlocator.trans h.locator
  cache := by rw [if_neg hnone, hcache, h.cache, if_neg hold]
  calls := by rw [if_neg hready, List.append_nil, hcalls]
  gives hnow := absurd hnow hready
  nobody e he := by
    rcases hpending e he with he | rfl | rfl
    · exact h.nobody e he
    · simp [Event.job?]
    · simp [Event.job?]
  undelivered _ o ho := by
    rcases hpending _ ho with ho | ho | ho
    · exact h.undelivered hold o ho
    · cases ho
    · cases ho

/-- The task takes its first step: the formatter cannot be started, or has finished at once, or is running. -/
theorem Inquiry.Owes.resume {now : Nat} (h : q.Owes verdict timeout s j) (hj : s.jobs[q.job]? = some j)
    (hsorted : s.clock.Sorted) (htask : j.task = .ready)
    (hclock : s.clock.of q.job = { now, timers := [⟨now + timeout, .expire q.job⟩] })
    (hout : q.outcome = (verdict j.argv j.wrapped).outcome j.content j.argv) :
    q.Answered (s.resume q.job) ∨ q.Underway verdict timeout (s.resume q.job) := by
  have hgives := h.gives htask
  generalize hreply : s.formatter s.runs.length ⟨j.argv, j.wrapped, none⟩ = r at hgives
  rw [resume_of_ready hj htask hreply]
  dsimp only
  generalize hu : ({ s with runs := s.runs ++ [⟨j.argv, j.wrapped, none⟩] } : Service) = u
  have hju : u.jobs[q.job]? = some j := hu ▸ hj
  have hlocator : u.locator = q.behind.locator := hu ▸ h.locator
  have hcalls : u.calls = q.behind.calls := by
    rw [h.calls, if_pos htask, ← hu]
    exact List.map_append
  have hcache : q.behind.cache = u.cache.store j.content q.outcome := by
    rw [h.cache, if_neg (by simp [htask]), ← hu]
  have hcu : u.clock = s.clock := hu ▸ rfl
  -- what becomes of the task while the formatter is running
  have hof : (u.clock.after r.delay (.finish q.job)).of q.job = started q.job now r.delay timeout := by
    rw [hcu, Clock.of_after_self rfl hsorted r.delay, hclock]
    rfl
  have goesOn (hphase : Phase verdict (fun _ => .ok q.outcome) timeout (started q.job now r.delay timeout) q.job
      { j with task := .running r }) : q.Underway verdict timeout
        ((u.modifyJob q.job fun j => { j with task := .running r }).after r.delay (.finish q.job)) := by
    refine ⟨{ j with task := .running r }, getElem?_modifyJob hju _, ?_, hof ▸ hphase⟩
    refine h.proceed (by simp [htask]) (by simp) (by simp) (hu ▸ rfl) (hu ▸ rfl) (hu ▸ rfl) hcalls fun e he => ?_
    rcases Multiset.mem_cons.mp (Clock.pending_after .. ▸ he) with rfl | he
    · exact .inr (.inr rfl)
    · exact .inl (hcu ▸ (he : e ∈ u.clock.pending))
  rcases Gives.cases hgives j.content j.argv with ⟨reason, hreason, hv⟩ | ⟨hstart, ⟨_, hdelay, hv⟩ | ⟨_, hpos, hdelay, hv⟩⟩
  · have hfailed : q.outcome = .failed j.content .notStarted := hout.trans hv
    have hkept : q.behind.cache = u.cache := by rw [hcache, hfailed, Cache.store_of_error rfl]
    rw [hreason, ← hfailed]
    exact .inl (answered_completeInTask (s := u.warnStart j.argv reason) hju h.asked ⟨hkept.symm, hlocator, hcalls⟩)
  · rw [hstart]
    dsimp only
    split
    · exact .inl (answered_finishTask hju h.asked hcache hlocator hcalls (hout.trans hv))
    · exact .inr (goesOn (.running rfl (next?_started_of_lt hdelay) rfl (congrArg _ (hout.trans hv))))
  · rw [hstart]
    dsimp only
    obtain ⟨d, hnext⟩ := next?_started_of_le hdelay
    rw [if_neg (by omega)]
    exact .inr (goesOn (.late rfl hnext (congrArg _ (hout.trans hv))))

/-- The next event about the job brings it nearer to its answer. -/
theorem Inquiry.Owes.handle {d : Clock} (h : q.Owes verdict timeout s j) (hj : s.jobs[q.job]? = some j)
    (hphase : Phase verdict (fun _ => .ok q.outcome) timeout d q.job j) (hsorted : s.clock.Sorted)
    (hnext : d.next? = some (e, s.clock.of q.job)) (hdirect : ∀ o, e = .deliver q.job o → j.task = .none) :
    q.Answered (Service.handle s e) ∨ q.Underway verdict timeout (Service.handle s e) := by
  have hcache := h.cache
  have hcalls := h.calls
  cases hphase with
  | @delivery o _ hfirst hexpect =>
    obtain ⟨rfl, -⟩ := Prod.mk.inj (Option.some.inj (hnext.symm.trans hfirst))
    obtain rfl := Except.ok.inj hexpect
    have htask : j.task = .none := hdirect _ rfl
    simp only [htask, reduceCtorEq, if_true, if_false, List.append_nil] at hcache hcalls
    exact .inl (answered_completeAlone hj h.asked ⟨hcache.symm, h.locator, hcalls.symm⟩ (by simp [htask]))
  | ready htask hqueue htimers hexpect =>
    have hfirst : d.next? = some (.resume q.job, { d with queue := [] }) := by rw [Clock.next?, hqueue]
    obtain ⟨rfl, hclock⟩ := Prod.mk.inj (Option.some.inj (hnext.symm.trans hfirst))
    exact h.resume hj hsorted htask (by rw [hclock, htimers]) (Except.ok.inj hexpect)
  | @running r _ htask hfirst hfree hexpect =>
    obtain ⟨rfl, rfl⟩ := Prod.mk.inj (Option.some.inj (hnext.symm.trans hfirst))
    simp only [htask, reduceCtorEq, if_false, List.append_nil] at hcalls
    rw [Service.handle, finish_of_running hj htask]
    refine .inr ⟨{ j with task := .finished r }, getElem?_modifyJob hj _, ?_, .finished rfl ?_ hexpect⟩
    · refine h.proceed (by simp [htask]) (by simp) (by simp) rfl rfl rfl hcalls.symm fun e he => ?_
      rcases Multiset.mem_cons.mp (Clock.pending_push .. ▸ he) with rfl | he
      · exact .inr (.inl rfl)
      · exact .inl he
    · have hof : (s.push (.resume q.job)).clock.of q.job = (s.clock.of q.job).push (.resume q.job) :=
        Clock.of_push_self rfl _
      exact (congrArg Clock.queue hof).trans (by rw [Clock.push, hfree, List.nil_append])
  | @finished r htask hqueue hexpect =>
    have hfirst : d.next? = some (.resume q.job, { d with queue := [] }) := by rw [Clock.next?, hqueue]
    obtain ⟨rfl, -⟩ := Prod.mk.inj (Option.some.inj (hnext.symm.trans hfirst))
    simp only [htask, reduceCtorEq, if_false, List.append_nil] at hcache hcalls
    rw [Service.handle, resume_of_finished hj htask]
    exact .inl (answered_finishTask hj h.asked hcache h.locator hcalls.symm (Except.ok.inj hexpect))
  | @late r _ htask hfirst hexpect =>
    obtain ⟨rfl, -⟩ := Prod.mk.inj (Option.some.inj (hnext.symm.trans hfirst))
    have hout := Except.ok.inj hexpect
    simp only [htask, reduceCtorEq, if_false, List.append_nil] at hcache hcalls
    rw [hout, Cache.store_of_error rfl] at hcache
    rw [Service.handle, expire_of_running hj h.asked.outcome htask, ← hout]
    have hstop : (s.stop q.job (.running r)).jobs[q.job]? = some { j with task := .stopping true } :=
      getElem?_modifyJob hj _
    have hasked : q.Asked { j with task := .stopping true } :=
      ⟨h.asked.content, h.asked.listener, h.asked.outcome, h.asked.told⟩
    exact .inl (answered_completeAlone hstop hasked ⟨hcache.symm, h.locator, hcalls.symm⟩ (by simp))

theorem Inquiry.Owes.passes (h : q.Owes verdict timeout s j) (hpending : s.clock.pending = e ::ₘ c.pending) :
    q.Owes verdict timeout { s with clock := c } j :=
  { h with
    nobody := fun e' he' => h.nobody e' (hpending ▸ Multiset.mem_cons_of_mem he')
    undelivered := fun htask o ho => h.undelivered htask o (hpending ▸ Multiset.mem_cons_of_mem ho) }

theorem Inquiry.Underway.handle (h : q.Underway verdict timeout s) (hlone : Lone q.job s)
    (hnext : s.clock.next? = some (e, c)) : q.Answered (Service.handle { s with clock := c } e) ∨
      q.Underway verdict timeout (Service.handle { s with clock := c } e) := by
  obtain ⟨j, hj, howes, hphase⟩ := h
  have hpending : s.clock.pending = e ::ₘ c.pending := Clock.pending_of_next? hnext
  have hmem : e ∈ s.clock.pending := hpending ▸ Multiset.mem_cons_self ..
  have hpasses := howes.passes hpending
  by_cases he : e.job? = some q.job
  · refine hpasses.handle hj hphase (hlone.sorted.next? hnext) (Clock.of_next?_self hlone.sorted hnext he) ?_
    rintro o rfl
    by_contra htask
    exact howes.undelivered htask o hmem
  · -- what is off for another job only lets time pass
    have hoff : s.IsOff e := ((hlone.others e hmem).resolve_left he).resolve_left (howes.nobody e hmem)
    rw [handle_of_isOff (s := { s with clock := c }) hoff]
    have hother := Clock.of_next?_other hlone.sorted hnext he
    exact .inr ⟨j, hj, hpasses, hphase.pass (hlone.sorted.of _) hother⟩

/-! ### After the answer -/

/-- What is left of a task after the answer has no effect on anything else. -/
theorem handle_of_done (hj : s.jobs[m]? = some j) (hdone : j.done = true) (htask : j.task ≠ .ready)
    (he : e.job? = some m) : ∃ jobs clock cancelled task, handle s e = { s with jobs, clock, cancelled } ∧
      jobs[m]? = some { j with task } ∧ task ≠ .ready := by
  have hsame : ∃ jobs clock cancelled task, s = { s with jobs, clock, cancelled } ∧ jobs[m]? = some { j with task } ∧
      task ≠ .ready := ⟨s.jobs, s.clock, s.cancelled, j.task, rfl, hj, htask⟩
  have hset (task : Task) : (s.jobs.modify m fun j => { j with task })[m]? = some { j with task } :=
    getElem?_modifyJob hj _
  cases e with
  | resume i =>
    cases he
    simp only [handle, resume, hj]
    cases ht : j.task with
    | ready => exact absurd ht htask
    | finished r =>
      dsimp only
      rw [finishTask, if_pos hdone]
      exact ⟨_, _, _, _, rfl, hset (.ended .normal), by simp⟩
    | stopping started => exact ⟨_, _, _, _, rfl, hset (.ended .cancelled), by simp⟩
    | _ => exact hsame
  | finish i =>
    cases he
    cases ht : j.task with
    | running r =>
      rw [handle, finish_of_running hj ht]
      exact ⟨_, _, _, _, rfl, hset (.finished r), by simp⟩
    | _ =>
      rw [handle_of_isOff (e := .finish m) ⟨j, hj, by simp [ht]⟩]
      exact hsame
  | expire i =>
    cases he
    rw [handle_of_isOff (e := .expire m) ⟨j, hj, hdone⟩]
    exact hsame
  | deliver i o =>
    cases he
    have hlate : s.completeAlone m o = s := by simp only [completeAlone, complete, hj, hdone, if_true]
    rw [handle, hlate]
    exact hsame
  | rested => cases he
  | wake w => cases he

theorem Inquiry.Answered.handle (h : q.Answered s) (hlone : Lone q.job s) (hnext : s.clock.next? = some (e, c)) :
    q.Answered (Service.handle { s with clock := c } e) := by
  have hmem : e ∈ s.clock.pending := Clock.pending_of_next? hnext ▸ Multiset.mem_cons_self ..
  obtain ⟨j, hj, hcontent, hlistener, hout, htold, htask⟩ := h.job
  have hdone : j.done = true := by simp [Promise.done, hout]
  rcases hlone.others e hmem with he | he | hoff
  · obtain ⟨jobs, clock, cancelled, task, hhandle, hj', htask'⟩ :=
      handle_of_done (s := { s with clock := c }) hj hdone htask he
    rw [hhandle]
    exact ⟨⟨h.alike.cache, h.alike.locator, h.alike.calls⟩, ⟨_, hj', hcontent, hlistener, hout, htold, htask'⟩, h.received⟩
  · obtain ⟨ws, waits, awake, hhandle⟩ := NoneReady.handle_aside (s := { s with clock := c }) hlone.noneReady he
    rw [hhandle]
    exact ⟨⟨h.alike.cache, h.alike.locator, h.alike.calls⟩, h.job, h.received⟩
  · rw [handle_of_isOff (s := { s with clock := c }) hoff]
    exact ⟨⟨h.alike.cache, h.alike.locator, h.alike.calls⟩, h.job, h.received⟩

/-! ### A whole run -/

/-- The request has its answer or is on its way to it, and nothing else is to be done. -/
structure Inquiry.Heads (verdict : List Text → Text → Verdict) (timeout : Nat) (q : Inquiry) (s : Service) : Prop where
  lone : Lone q.job s
  answered : q.Answered s ∨ q.Underway verdict timeout s

namespace Inquiry.Heads

theorem step? (h : q.Heads verdict timeout s) (hstep : s.step? = some t) : q.Heads verdict timeout t := by
  unfold Service.step? at hstep
  split at hstep
  · cases hstep
  · rename_i e c hnext
    cases hstep
    refine ⟨h.lone.handle hnext, ?_⟩
    rcases h.answered with hanswered | hunderway
    · exact .inl (hanswered.handle h.lone hnext)
    · exact hunderway.handle h.lone hnext

theorem runs (h : q.Heads verdict timeout s) (hruns : Runs s t) : q.Heads verdict timeout t := by
  induction hruns with
  | refl => exact h
  | tail _ hstep ih => exact ih.step? hstep

/-- As long as there is no answer, something is left to happen. -/
theorem answered_of_rest (h : q.Heads verdict timeout s) (hrest : s.clock.pending = 0) : q.Answered s := by
  refine h.answered.resolve_right ?_
  rintro ⟨j, _, _, hphase⟩
  have hnone : (s.clock.of q.job).next? = none := by
    rw [Clock.next?_eq_none_iff, Clock.pending_of, hrest, Multiset.filter_zero]
  cases hphase with
  | delivery hnext => cases hnone.symm.trans hnext
  | ready _ hqueue => simp [Clock.next?, hqueue] at hnone
  | running _ hnext => cases hnone.symm.trans hnext
  | finished _ hqueue => simp [Clock.next?, hqueue] at hnone
  | late _ hnext => cases hnone.symm.trans hnext

/-- Nobody goes on before there is an answer. -/
theorem answered_of_awake (h : q.Heads verdict timeout s) (hbehind : q.behind.awake = false) (hawake : s.awake = true) :
    q.Answered s := by
  refine h.answered.resolve_right ?_
  rintro ⟨j, _, howes, _⟩
  exact absurd (hawake.symm.trans (howes.awake.trans hbehind)) (by decide)

/-- The program is to wait. -/
theorem sleep (h : q.Heads verdict timeout s) :
    Inquiry.Heads verdict timeout { q with behind := { q.behind with awake := false } } { s with awake := false } := by
  refine ⟨⟨h.lone.sorted, h.lone.noneReady, h.lone.others⟩, ?_⟩
  rcases h.answered with hanswered | ⟨j, hj, howes, hphase⟩
  · have halike := hanswered.alike
    exact .inl ⟨⟨halike.cache, halike.locator, halike.calls⟩, hanswered.job, hanswered.received⟩
  · have hasked : Inquiry.Asked { q with behind := { q.behind with awake := false } } j := { howes.asked with }
    exact .inr ⟨j, hj, { howes with asked := hasked, awake := rfl }, hphase⟩

end Inquiry.Heads

/-! ## The request -/

/-- Nothing is left to do: what is on the clock changes nothing, and no task is yet to show its diagnostic. -/
structure IsAlone (s : Service) : Prop where
  idle : s.IsIdle
  sorted : s.clock.Sorted
  noneReady : s.NoneReady

namespace IsAlone

theorem locate (h : s.IsAlone) : s.locate.2.IsAlone := ⟨h.idle, h.sorted, h.noneReady⟩

/-- Nothing is to happen to the job that is next. -/
theorem of_next (h : s.IsAlone) : s.clock.of s.jobs.length = { now := s.clock.now } := by
  have hother (e : Event) (he : e ∈ s.clock.pending) : ¬ e.job? = some s.jobs.length := by
    obtain ⟨m, hm, hjob⟩ := (h.idle e he).job?
    simp only [hjob, Option.some.injEq]
    exact Nat.ne_of_lt hm
  have hqueue : s.clock.queue.filter (·.job? = some s.jobs.length) = [] :=
    List.filter_eq_nil_iff.mpr fun e he => by simpa using hother e (by simp [Clock.pending, he])
  have htimers : s.clock.timers.filter (·.event.job? = some s.jobs.length) = [] :=
    List.filter_eq_nil_iff.mpr fun timer ht => by
      simpa using hother timer.event (Multiset.mem_coe.mpr (List.mem_append_right _ (List.mem_map_of_mem ht)))
  rw [Clock.of, hqueue, htimers]

/-- A job that is added is the only one with something to do. -/
theorem lone (h : s.IsAlone) (hjobs : t.jobs = s.jobs ++ [j]) (hwaits : t.waits = s.waits) (hsorted : t.clock.Sorted)
    (hpending : ∀ e ∈ t.clock.pending, e ∈ s.clock.pending ∨ e.job? = some s.jobs.length) :
    Lone s.jobs.length t ∧ (∀ e ∈ t.clock.pending, e.job? ≠ none) ∧ t.jobs[s.jobs.length]? = some j := by
  have hready : t.NoneReady := fun i shown => by
    rw [hwaits]
    exact h.noneReady i shown
  refine ⟨⟨hsorted, hready, fun e he => ?_⟩, fun e he => ?_, by rw [hjobs, List.getElem?_concat_length]⟩
  · rcases hpending e he with he | hown
    · obtain ⟨m, hm, hjob⟩ := (h.idle e he).job?
      exact .inr (.inr ((h.idle e he).of_job hjob (by rw [hjobs, List.getElem?_append_left hm])))
    · exact .inl hown
  · rcases hpending e he with he | hown
    · obtain ⟨m, _, hjob⟩ := (h.idle e he).job?
      simp [hjob]
    · simp [hown]

/-- An answer without a run: the outcome is to be delivered, and that is all. -/
theorem heads_deliver {clock : Clock} (h : s.IsAlone) (hsorted : clock.Sorted)
    (hpending : clock.pending = .deliver s.jobs.length o ::ₘ s.clock.pending)
    (hnext : ∃ d, (clock.of s.jobs.length).next? = some (.deliver s.jobs.length o, d)) :
    Inquiry.Heads verdict timeout ⟨s.jobs.length, content, l, o, s⟩
      { s.addJob { content, listener := l } with clock } := by
  obtain ⟨hlone, hnobody, hj⟩ := h.lone (t := { s.addJob { content, listener := l } with clock }) rfl rfl hsorted
    fun e he => by
      rcases Multiset.mem_cons.mp (hpending ▸ he) with rfl | he
      · exact .inr rfl
      · exact .inl he
  obtain ⟨_, hnext⟩ := hnext
  refine ⟨hlone, .inr ⟨_, hj, ?_, .delivery hnext rfl⟩⟩
  exact {
    asked := ⟨rfl, rfl, rfl, rfl⟩
    awake := rfl
    locator := rfl
    cache := rfl
    calls := (List.append_nil _).symm
    gives := nofun
    nobody := hnobody
    undelivered := fun hnone => absurd rfl hnone }

/-- An answer that takes a run. -/
theorem heads_startJob (h : s.IsAlone)
    (hgives : ∀ r, (s.formatter s.runs.length r).Gives s.config.timeoutMs (verdict r.argv r.stdin)) (content : Text)
    (l : Listener) (argv : List Text) :
    let o := (verdict argv (Wrapping.wrap content)).outcome content argv
    ∃ b, s.runBlocking content argv = (o, b) ∧
      Inquiry.Heads verdict s.config.timeoutMs ⟨s.jobs.length, content, l, o, b⟩ (s.startJob content l argv) := by
  intro o
  obtain ⟨warnings, hblocking⟩ := runBlocking_of_gives (hgives ⟨argv, Wrapping.wrap content, some s.config.timeoutMs⟩)
  refine ⟨_, hblocking, ?_⟩
  have hsorted : (s.startJob content l argv).clock.Sorted := (h.sorted.push _).after _ _
  have hpending : (s.startJob content l argv).clock.pending
      = .expire s.jobs.length ::ₘ .resume s.jobs.length ::ₘ s.clock.pending :=
    (Clock.pending_after ..).trans (congrArg _ (Clock.pending_push ..))
  obtain ⟨hlone, hnobody, hj⟩ := h.lone (t := s.startJob content l argv) rfl rfl hsorted fun e he => by
    rw [hpending, Multiset.mem_cons, Multiset.mem_cons] at he
    rcases he with rfl | rfl | he
    · exact .inr rfl
    · exact .inr rfl
    · exact .inl he
  have hof : (s.startJob content l argv).clock.of s.jobs.length = ⟨s.clock.now, [.resume s.jobs.length],
      [⟨s.clock.now + s.config.timeoutMs, .expire s.jobs.length⟩]⟩ := by
    refine (Clock.of_after_self rfl (h.sorted.push _) _).trans ?_
    rw [Clock.of_push_self rfl, h.of_next]
    rfl
  refine ⟨hlone, .inr ⟨_, hj, ?_, .ready rfl (congrArg Clock.queue hof) ?_ rfl⟩⟩
  · have hcalls : calls { s with runs := s.runs ++ [⟨argv, Wrapping.wrap content, some s.config.timeoutMs⟩] }
        = s.calls ++ [(argv, Wrapping.wrap content)] := List.map_append
    refine {
      asked := ⟨rfl, rfl, rfl, rfl⟩
      awake := rfl
      locator := rfl
      cache := rfl
      calls := hcalls
      gives := fun _ => hgives ⟨argv, Wrapping.wrap content, none⟩
      nobody := hnobody
      undelivered := ?_ }
    intro _ other hother
    rw [hpending, Multiset.mem_cons, Multiset.mem_cons] at hother
    rcases hother with hother | hother | hother
    · cases hother
    · cases hother
    · exact h.idle _ hother
  · rw [hof]

end IsAlone

/-- A request is refused as a blocking run is, or is on its way to what the run answers. -/
theorem IsAlone.request (h : s.IsAlone)
    (hgives : ∀ r, (s.formatter s.runs.length r).Gives s.config.timeoutMs (verdict r.argv r.stdin)) (content : Text)
    (l : Listener) :
    (∃ f, s.formatBlocking content = (.error f, s.locate.2) ∧ s.request content l = (.error f, s.locate.2)) ∨
    ∃ i o b t, s.formatBlocking content = (.ok o, b) ∧ s.request content l = (.ok i, t) ∧
      (o.error.isSome = true → o.text = content) ∧
      Inquiry.Heads verdict s.config.timeoutMs ⟨s.jobs.length, content, l, o, b⟩ t := by
  cases hhit : s.cache.get? content with
  | some text =>
    have hof := Clock.of_after_self (n := s.jobs.length) (e := .deliver s.jobs.length ⟨text, none⟩) rfl h.sorted hitDelay
    rw [h.of_next] at hof
    have hrequest : s.request content l = (.ok none,
        (s.addJob { content, listener := l }).after hitDelay (.deliver s.jobs.length ⟨text, none⟩)) := by
      simp only [Service.request, hhit]
    exact .inr ⟨none, ⟨text, none⟩, s, _, by simp only [formatBlocking, hhit], hrequest, nofun,
      h.heads_deliver (h.sorted.after _ _) (Clock.pending_after ..) ⟨_, congrArg Clock.next? hof⟩⟩
  | none =>
    rcases hl : s.locate with ⟨found, u⟩
    have hu : s.locate.2 = u := congrArg Prod.snd hl
    obtain ⟨hlocated, hjobs, hconfig, hgives⟩ : u.IsAlone ∧ u.jobs = s.jobs ∧ u.config = s.config ∧
        ∀ r, (u.formatter u.runs.length r).Gives u.config.timeoutMs (verdict r.argv r.stdin) := by
      rw [← hu]
      exact ⟨h.locate, rfl, rfl, hgives⟩
    cases found with
    | none =>
      have hof := Clock.of_push_self (n := u.jobs.length)
        (e := .deliver u.jobs.length (.failed content .notFound)) rfl u.clock
      rw [hlocated.of_next] at hof
      have hrequest : s.request content l = (.ok none,
          (u.addJob { content, listener := l }).push (.deliver u.jobs.length (.failed content .notFound))) := by
        simp only [Service.request, hhit, hl, hjobs]
      rw [← hjobs]
      exact .inr ⟨none, .failed content .notFound, u, _, by simp only [formatBlocking, hhit, hl], hrequest, fun _ => rfl,
        hlocated.heads_deliver hlocated.sorted (Clock.pending_push ..) ⟨_, congrArg Clock.next? hof⟩⟩
    | some command =>
      cases ha : u.argv command with
      | error f =>
        exact .inl ⟨f, by simp only [formatBlocking, hhit, hl, ha], by simp only [Service.request, hhit, hl, ha]⟩
      | ok argv =>
        obtain ⟨b, hblocking, hheads⟩ := hlocated.heads_startJob hgives content l argv
        have hrequest : s.request content l = (.ok (some s.jobs.length), u.startJob content l argv) := by
          simp only [Service.request, hhit, hl, ha]
        rw [← hjobs, ← hconfig]
        exact .inr ⟨_, _, b, _, by simp only [formatBlocking, hhit, hl, ha, hblocking], hrequest, text_outcome_of_error,
          hheads⟩

/-! ## Waiting for the answer -/

theorem runs_runSteps (fuel : Nat) (s : Service) : Runs s (runSteps fuel s) := by
  induction fuel generalizing s with
  | zero => exact .refl
  | succ fuel ih =>
    rw [runSteps]
    split
    · exact .refl
    · split
      · exact .refl
      · rename_i t ht
        exact .head ht (ih t)

/-- With fuel for all that is to be done, events only end when the program goes on or nothing is left. -/
theorem awake_or_rest_of_runSteps {fuel : Nat} (h : s.work ≤ fuel) :
    (runSteps fuel s).awake = true ∨ (runSteps fuel s).clock.pending = 0 := by
  induction fuel generalizing s with
  | zero =>
    cases hstep : s.step? with
    | none => exact .inr (pending_of_step?_eq_none hstep)
    | some t => exact absurd (work_step?_lt hstep) (by omega)
  | succ fuel ih =>
    rw [runSteps]
    split
    · rename_i hawake
      exact .inl hawake
    · split
      · rename_i hstep
        exact .inr (pending_of_step?_eq_none hstep)
      · rename_i t hstep
        have hlt := work_step?_lt hstep
        exact ih (by omega)

/-- Whoever waits for the answer gets it. -/
theorem Inquiry.Heads.runUntilAwake (h : q.Heads verdict timeout s) : q.Answered s.runUntilAwake := by
  have hsleep := h.sleep
  have hend := hsleep.runs (runs_runSteps s.bound { s with awake := false })
  have hanswered : Inquiry.Answered { q with behind := { q.behind with awake := false } }
      (runSteps s.bound { s with awake := false }) := by
    rcases awake_or_rest_of_runSteps (s := { s with awake := false }) (work_le_bound _) with hawake | hrest
    · exact hend.answered_of_awake rfl hawake
    · exact hend.answered_of_rest hrest
  have halike := hanswered.alike
  exact ⟨⟨halike.cache, halike.locator, halike.calls⟩, hanswered.job, hanswered.received⟩

/-- A request that has the clock for itself is answered as a blocking run from the same state would answer it, whatever
becomes of the run that it may take: it tells the same outcome, once, and leaves the same cache, memory of the formatter
and calls; so does waiting for the outcome. Settings that let no run be started refuse it for the same reason. -/
theorem lone_request_is_answered_as_blocking (h : s.IsAlone)
    (hgives : ∀ r, (s.formatter s.runs.length r).Gives s.config.timeoutMs (verdict r.argv r.stdin)) (content : Text)
    (l : Listener) :
    match s.formatBlocking content with
    | (.error f, b) => s.request content l = (.error f, b) ∧ s.formatAwaited content = (.error f, b)
    | (.ok o, b) =>
      (o.error.isSome = true → o.text = content) ∧
      (∃ i, (s.request content l).1 = .ok i) ∧
      (∃ t, Runs (s.request content l).2 t ∧ t.clock.pending = 0 ∧ t.IsAlone ∧ Alike b t ∧
        ∃ j, t.jobs[s.jobs.length]? = some j ∧ j.content = content ∧ j.listener = l ∧ j.told = [o]) ∧
      (s.formatAwaited content).1 = .ok (some o) ∧ Alike b (s.formatAwaited content).2 := by
  have hasked := h.request hgives content l
  have hawaited := h.request hgives content .program
  rcases hasked with ⟨f, hblocking, hrequest⟩ | ⟨i, o, b, t, hblocking, hrequest, herror, hheads⟩
  · rcases hawaited with ⟨f', hblocking', hprogram⟩ | ⟨_, _, _, _, hblocking', _⟩
    · cases hblocking.symm.trans hblocking'
      rw [hblocking]
      exact ⟨hrequest, by simp only [formatAwaited, hprogram]⟩
    · cases hblocking.symm.trans hblocking'
  · rcases hawaited with ⟨f', hblocking', _⟩ | ⟨i', o', b', t', hblocking', hprogram, _, hheads'⟩
    · cases hblocking.symm.trans hblocking'
    cases hblocking.symm.trans hblocking'
    rw [hblocking, hrequest]
    obtain ⟨u, hruns, hrest⟩ := exists_runs_to_rest t
    have hend := hheads.runs hruns
    have hanswered := hend.answered_of_rest hrest
    obtain ⟨j, hj, hcontent, hlistener, _, htold, _⟩ := hanswered.job
    have halone : u.IsAlone := ⟨fun e he => absurd (hrest ▸ he) (Multiset.notMem_zero e), hend.lone.sorted,
      hend.lone.noneReady⟩
    have hreceived := hheads'.runUntilAwake
    have halike := hreceived.alike
    refine ⟨herror, ⟨i, rfl⟩, ⟨u, hruns, hrest, halone, hanswered.alike, j, hj, hcontent, hlistener, htold⟩, ?_, ?_⟩
    · simp only [formatAwaited, hprogram, hreceived.received rfl]
    · simp only [formatAwaited, hprogram]
      exact ⟨halike.cache, halike.locator, halike.calls⟩

/-- A type that is late, while the deadline of another is still on the clock and its answer in the cache. -/
theorem late_type_is_answered_as_blocking :
    let verdict : List Text → Text → Verdict := fun _ _ => .unfinished
    let done : Job := { content := "{ a: number }", listener := .nobody, outcome := some ⟨"A", none⟩, task := .ended .normal }
    let s : Service := { create .default { fixed := some "prettier" } (fun _ => none)
        fun _ r => (verdict r.argv r.stdin).reply 5 Config.default.timeoutMs with
      cache := Cache.set {} "{ a: number }" "A"
      clock := { now := 5, timers := [⟨3000, .expire 0⟩] }
      jobs := [done] }
    let late : Outcome := ⟨"{ a: string }", some "Prettier timed out"⟩
    s.IsAlone ∧ (∀ r, (s.formatter s.runs.length r).Gives s.config.timeoutMs (verdict r.argv r.stdin)) ∧
      ∃ b, s.formatBlocking "{ a: string }" = (.ok late, b) ∧ (s.formatAwaited "{ a: string }").1 = .ok (some late) ∧
        Alike b (s.formatAwaited "{ a: string }").2 := by
  intro verdict done s late
  have halone : s.IsAlone := by
    refine ⟨fun e he => ?_, List.pairwise_singleton .., nofun⟩
    cases List.mem_singleton.mp (Multiset.mem_coe.mp he)
    exact ⟨done, rfl, rfl⟩
  have hdelay : 5 < Config.default.timeoutMs := by decide
  have hgives : ∀ r, (s.formatter s.runs.length r).Gives s.config.timeoutMs (verdict r.argv r.stdin) :=
    fun r => Verdict.gives_reply hdelay (verdict r.argv r.stdin)
  have hlate : (s.formatBlocking "{ a: string }").1.toOption = some late := by decide +kernel
  clear_value s
  have hanswered := lone_request_is_answered_as_blocking halone hgives "{ a: string }" .nobody
  refine ⟨halone, hgives, ?_⟩
  rcases hblocking : s.formatBlocking "{ a: string }" with ⟨_ | o, b⟩
  · rw [hblocking] at hlate
    cases hlate
  · rw [hblocking] at hlate hanswered
    cases Option.some.inj hlate
    exact ⟨b, rfl, hanswered.2.2.2⟩

end Service

end Legible
