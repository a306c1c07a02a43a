import Legible.Proofs.Format.Cache
import Legible.Proofs.Service.Agenda
import Legible.Proofs.Service.Pending
/-!
# Every job is answered as a blocking run would be

Let a formatter be a function of its command line and its input: it finishes before the deadline, or cannot be started,
or does not finish by the deadline. Then it is known beforehand what each type is answered with (`expected`), and
`Timely` says that the cache holds nothing else and that no job tells anything else. That a job is told in time is a
matter of the order of its own events: `Phase` says which of them is next.
-/

namespace Legible

/-- What a run of the formatter comes to. -/
inductive Verdict where
  | finished (status : Int) (stdout stderr : Text)
  | notStarted
  /-- It does not finish by the deadline. -/
  | unfinished

/-- The outcome of such a run for a type. -/
def Verdict.outcome (content : Text) (argv : List Text) : Verdict → Outcome
  | finished status stdout stderr => .ofResult content ⟨argv, status, stdout, stderr⟩
  | notStarted => .failed content .notStarted
  | unfinished => .failed content .timedOut

/-- A blocking run and a run on the clock both come to this, if they are given so much time. -/
def Reply.Gives (r : Reply) (timeout : Nat) : Verdict → Prop
  | .finished status stdout stderr => r.startFault = none ∧ r.hangs = false ∧ r.delay < timeout ∧
      r.status = status ∧ r.stdout = stdout ∧ r.stderr = stderr
  | .notStarted => r.startFault.isSome = true
  | .unfinished => r.startFault = none ∧ r.hangs = true ∧ 0 < r.delay ∧ timeout ≤ r.delay

/-- A reply that comes to this, after so many milliseconds if it is in time. -/
def Verdict.reply (delay timeout : Nat) : Verdict → Reply
  | .finished status stdout stderr => { status, stdout, stderr, delay }
  | .notStarted => { startFault := some "no such file" }
  | .unfinished => { hangs := true, delay := timeout }

theorem Verdict.gives_reply {delay timeout : Nat} (h : delay < timeout) (v : Verdict) :
    (v.reply delay timeout).Gives timeout v := by
  cases v with
  | finished status stdout stderr => exact ⟨rfl, rfl, h, rfl, rfl, rfl⟩
  | notStarted => rfl
  | unfinished => exact ⟨rfl, rfl, Nat.zero_lt_of_lt h, Nat.le_refl _⟩

/-- The formatter is a function of its command line and its input. -/
def Follows (f : Formatter) (timeout : Nat) (verdict : List Text → Text → Verdict) : Prop :=
  ∀ k r, (f k r).Gives timeout (verdict r.argv r.stdin)

namespace Service

variable {verdict : List Text → Text → Verdict} {expect : Text → Except Fault Outcome} {s t : Service} {m n : Nat}
  {j : Job} {e : Event} {content : Text} {f : Fault} {o : Outcome}

/-- What a type is answered with, or why it is refused. -/
def expected (s : Service) (verdict : List Text → Text → Verdict) (content : Text) : Except Fault Outcome :=
  match s.locate.1 with
  | none => .ok (.failed content .notFound)
  | some c => (s.argv c).map fun argv => (verdict argv (Wrapping.wrap content)).outcome content argv

/-! ## What blocking runs and runs on the clock rely on -/

/-- The formatter and the cache answer every type as expected. -/
structure Faithful (verdict : List Text → Text → Verdict) (expect : Text → Except Fault Outcome) (s : Service) :
    Prop where
  follows : Follows s.formatter s.config.timeoutMs verdict
  expected : s.expected verdict = expect
  cached : ∀ content t, s.cache.get? content = some t → expect content = .ok ⟨t, none⟩

namespace Faithful

theorem congr (h : Faithful verdict expect s) (hconfig : t.config = s.config) (hformatter : t.formatter = s.formatter)
    (hlocate : t.locate.1 = s.locate.1) (hcache : t.cache = s.cache) : Faithful verdict expect t := by
  have hargv (c : Command) : t.argv c = s.argv c := by rw [argv, hconfig, argv]
  refine ⟨by rw [hformatter, hconfig]; exact h.follows, ?_, by rw [hcache]; exact h.cached⟩
  rw [← h.expected]
  funext content
  simp only [Service.expected, hlocate, hargv]

theorem of_scene (h : Faithful verdict expect s) (hscene : SameScene s t) (hcache : t.cache = s.cache) :
    Faithful verdict expect t := by
  refine h.congr hscene.config hscene.formatter ?_ hcache
  simp only [Service.locate, hscene.locator, hscene.which]

theorem locate (h : Faithful verdict expect s) : Faithful verdict expect s.locate.2 :=
  h.congr rfl rfl (Locator.locate_locate s.which s.locator) rfl

theorem expect_of_not_found (h : Faithful verdict expect s) (hc : s.locate.1 = none) (content : Text) :
    expect content = .ok (.failed content .notFound) := by
  rw [← h.expected]
  simp only [Service.expected, hc]

theorem expect_of_fault (h : Faithful verdict expect s) {c : Command} (hc : s.locate.1 = some c)
    (hf : s.argv c = .error f) (content : Text) : expect content = .error f := by
  rw [← h.expected]
  simp only [Service.expected, hc, hf]
  rfl

theorem expect_of_argv (h : Faithful verdict expect s) {c : Command} {argv : List Text} (hc : s.locate.1 = some c)
    (ha : s.argv c = .ok argv) (content : Text) :
    expect content = .ok ((verdict argv (Wrapping.wrap content)).outcome content argv) := by
  rw [← h.expected]
  simp only [Service.expected, hc, ha]
  rfl

/-- A result as expected may enter the cache. -/
theorem conclude (h : Faithful verdict expect s) {r : ProcessResult}
    (hexpect : expect content = .ok (.ofResult content r)) :
    (s.conclude content r).1 = .ofResult content r ∧ Faithful verdict expect (s.conclude content r).2 := by
  unfold Service.conclude
  dsimp only
  split
  · rename_i hok
    refine ⟨rfl, h.follows, h.expected, fun other text hget => ?_⟩
    rcases Cache.get?_of_set hget with ⟨rfl, rfl⟩ | hkept
    · rw [hexpect, ← hok]
    · exact h.cached other text hkept
  · exact ⟨rfl, h.congr rfl rfl rfl rfl⟩

end Faithful

/-- What a reply can be, and what it makes of a type. -/
theorem Gives.cases {r : Reply} {timeout : Nat} {v : Verdict} (h : r.Gives timeout v) (content : Text) (argv : List Text) :
    (∃ reason, r.startFault = some reason ∧ v.outcome content argv = .failed content .notStarted) ∨
    r.startFault = none ∧ (r.hangs = false ∧ r.delay < timeout ∧ v.outcome content argv = .ofResult content (resultOf argv r) ∨
      r.hangs = true ∧ 0 < r.delay ∧ timeout ≤ r.delay ∧ v.outcome content argv = .failed content .timedOut) := by
  cases v with
  | finished status stdout stderr =>
    obtain ⟨hstart, hhangs, hdelay, rfl, rfl, rfl⟩ := h
    exact .inr ⟨hstart, .inl ⟨hhangs, hdelay, rfl⟩⟩
  | notStarted =>
    obtain ⟨reason, hreason⟩ := Option.isSome_iff_exists.mp h
    exact .inl ⟨reason, hreason, rfl⟩
  | unfinished =>
    obtain ⟨hstart, hhangs, hdelay, htimeout⟩ := h
    exact .inr ⟨hstart, .inr ⟨hhangs, hdelay, htimeout, rfl⟩⟩

/-! ## What is next for a job -/

/-- What is next for a job without an outcome, on the clock with its own events. -/
inductive Phase (verdict : List Text → Text → Verdict) (expect : Text → Except Fault Outcome) (timeout : Nat) (d : Clock)
    (n : Nat) (j : Job) : Prop
  | delivery {o : Outcome} {d' : Clock} : d.next? = some (.deliver n o, d') → expect j.content = .ok o →
      Phase verdict expect timeout d n j
  | ready : j.task = .ready → d.queue = [.resume n] → d.timers = [⟨d.now + timeout, .expire n⟩] →
      expect j.content = .ok ((verdict j.argv j.wrapped).outcome j.content j.argv) → Phase verdict expect timeout d n j
  /-- It will finish before its deadline, and has the time to go on. -/
  | running {r : Reply} {d' : Clock} : j.task = .running r → d.next? = some (.finish n, d') → d'.queue = [] →
      expect j.content = .ok (.ofResult j.content (resultOf j.argv r)) → Phase verdict expect timeout d n j
  | finished {r : Reply} : j.task = .finished r → d.queue = [.resume n] →
      expect j.content = .ok (.ofResult j.content (resultOf j.argv r)) → Phase verdict expect timeout d n j
  /-- Its deadline is over before it finishes. -/
  | late {r : Reply} {d' : Clock} : j.task = .running r → d.next? = some (.expire n, d') →
      expect j.content = .ok (.failed j.content .timedOut) → Phase verdict expect timeout d n j

/-- The job has told what is expected, or will. -/
def OnTime (verdict : List Text → Text → Verdict) (expect : Text → Except Fault Outcome) (timeout : Nat) (d : Clock)
    (n : Nat) (j : Job) : Prop :=
  (∃ o, j.outcome = some o ∧ expect j.content = .ok o) ∨ j.outcome = none ∧ Phase verdict expect timeout d n j

/-- Time may pass for the sake of others, as long as nothing of the job is due. -/
theorem Phase.pass {timeout time : Nat} {d d' : Clock} (h : Phase verdict expect timeout d n j) (hs : d.Sorted)
    (hpass : d' = d ∨ d.queue = [] ∧ (∀ t ∈ d.timers, time ≤ t.due) ∧ d' = d.advance time) :
    Phase verdict expect timeout d' n j := by
  rcases hpass with rfl | ⟨hqueue, hdue, rfl⟩
  · exact h
  -- the queue is empty, so what is next is a timer, and it is not over
  have hsame {e : Event} {d' : Clock} (hnext : d.next? = some (e, d')) :
      (d.advance time).next? = some (e, d') := by
    have htimers : d.timers ≠ [] := by
      intro hnone
      simp [Clock.next?, hqueue, hnone] at hnext
    rw [Clock.next?_advance hqueue htimers hs hdue, hnext]
  cases h with
  | delivery hnext hexpect => exact .delivery (hsame hnext) hexpect
  | ready _ hready => cases hqueue.symm.trans hready
  | running htask hnext hfree hexpect => exact .running htask (hsame hnext) hfree hexpect
  | finished _ hready => cases hqueue.symm.trans hready
  | late htask hnext hexpect => exact .late htask (hsame hnext) hexpect

/-! ## Events about another job -/

theorem jobs_complete (s : Service) (m : Nat) (o : Outcome) :
    (s.complete m o).1.jobs = s.jobs.modify m (·.completed o) :=
  (congrArg Ledger.jobs (ledger_complete s 0 m o)).trans (Ledger.jobs_complete ..)

/-- An event about a job changes nothing about the others. -/
structure Apart (m : Nat) (s t : Service) : Prop where
  clock : ∀ n, n ≠ m → t.clock.of n = s.clock.of n
  job : ∀ n, n ≠ m → t.jobs[n]? = s.jobs[n]?
  length : t.jobs.length = s.jobs.length
  sorted : s.clock.Sorted → t.clock.Sorted

theorem Alters.apart (h : Alters m s t) : Apart m s t := by
  have modify (f : Job → Job) (n : Nat) (hn : n ≠ m) : (s.jobs.modify m f)[n]? = s.jobs[n]? :=
    List.getElem?_modify_ne _ _ hn.symm
  cases h with
  | task task => exact ⟨fun _ _ => rfl, modify _, List.length_modify .., id⟩
  | push =>
    refine ⟨fun n hn => Clock.of_push_other ?_ _, fun _ _ => rfl, rfl, fun h => h.push _⟩
    simpa [Event.job?] using hn.symm
  | after delay =>
    refine ⟨fun n hn => Clock.of_after_other ?_ _ _, fun _ _ => rfl, rfl, fun h => h.after _ _⟩
    simpa [Event.job?] using hn.symm
  | complete o =>
    obtain ⟨ws, hclock⟩ := (s.tells_complete m o).clock
    have hjobs := s.jobs_complete m o
    refine ⟨fun n _ => ?_, fun n hn => ?_, ?_, fun h => ?_⟩
    · rw [hclock]
      exact Clock.of_wake ..
    · rw [hjobs]
      exact modify _ n hn
    · rw [hjobs]
      exact List.length_modify ..
    · rw [hclock]
      exact h
  | aside => exact ⟨fun _ _ => rfl, fun _ _ => rfl, rfl, id⟩

theorem Altered.apart (h : Altered m s t) : Apart m s t := by
  induction h with
  | refl => exact ⟨fun _ _ => rfl, fun _ _ => rfl, rfl, id⟩
  | tail _ halt ih =>
    have h' := halt.apart
    exact ⟨fun n hn => (h'.clock n hn).trans (ih.clock n hn), fun n hn => (h'.job n hn).trans (ih.job n hn),
      h'.length.trans ih.length, fun hs => h'.sorted (ih.sorted hs)⟩

/-! ## Events about the job itself -/

/-- The job has come to this outcome, and the cache is as it was. -/
structure Told (m : Nat) (j : Job) (o : Outcome) (s t : Service) : Prop where
  scene : SameScene s t
  cache : t.cache = s.cache
  job : ∃ j', t.jobs[m]? = some j' ∧ j'.content = j.content ∧ j'.outcome = some o

theorem getElem?_jobs_complete (hj : s.jobs[m]? = some j) (hnone : j.outcome = none) (o : Outcome) :
    (s.complete m o).1.jobs[m]? = some { j with toPromise := j.fix o } := by
  rw [jobs_complete, List.getElem?_modify_eq, hj]
  simp [Job.completed, Promise.done, hnone]

theorem cache_completeInTask (s : Service) (m : Nat) (o : Outcome) : (s.completeInTask m o).cache = s.cache :=
  (tells_completeInTask s m o).cache

theorem cache_completeAlone (s : Service) (m : Nat) (o : Outcome) : (s.completeAlone m o).cache = s.cache :=
  (tells_completeAlone s m o).cache

theorem told_completeInTask (hj : s.jobs[m]? = some j) (hnone : j.outcome = none) (o : Outcome) :
    Told m j o s (s.completeInTask m o) where
  scene := (altered_completeInTask s m o).setting.toSameScene
  cache := cache_completeInTask s m o
  job := by
    have hjob := getElem?_jobs_complete hj hnone o
    unfold completeInTask
    split <;> rename_i h <;> rw [h] at hjob <;> exact ⟨_, getElem?_modifyJob hjob _, rfl, rfl⟩

theorem told_completeAlone (hj : s.jobs[m]? = some j) (hnone : j.outcome = none) (o : Outcome) :
    Told m j o s (s.completeAlone m o) where
  scene := (altered_completeAlone s m o).setting.toSameScene
  cache := cache_completeAlone s m o
  job := by
    have hjob := getElem?_jobs_complete hj hnone o
    unfold completeAlone
    split <;> rename_i h <;> rw [h] at hjob <;> exact ⟨_, hjob, rfl, rfl⟩

/-- A job is on time, and so is what follows from it for others. -/
structure KeepsTime (verdict : List Text → Text → Verdict) (expect : Text → Except Fault Outcome) (timeout m : Nat)
    (t : Service) : Prop where
  faithful : Faithful verdict expect t
  onTime : ∃ j, t.jobs[m]? = some j ∧ OnTime verdict expect timeout (t.clock.of m) m j

theorem Told.keepsTime {timeout : Nat} (h : Told m j o s t) (hs : Faithful verdict expect s)
    (hexpect : expect j.content = .ok o) : KeepsTime verdict expect timeout m t := by
  obtain ⟨j', hj', hcontent, hout⟩ := h.job
  exact ⟨hs.of_scene h.scene h.cache, j', hj', .inl ⟨o, hout, by rw [hcontent, hexpect]⟩⟩

/-- Nothing of a job that has its outcome enters the cache. -/
theorem cache_handle_of_done (hj : s.jobs[m]? = some j) (hdone : j.done = true) (he : e.job? = some m) :
    (handle s e).cache = s.cache := by
  have hfinish (u : Service) (r : Reply) : (u.finishTask m j r).cache = u.cache := by
    rw [finishTask, if_pos hdone]
    rfl
  cases e with
  | resume i =>
    cases he
    simp only [handle, resume, hj]
    cases j.task with
    | ready =>
      dsimp only
      split
      · exact cache_completeInTask ..
      · split
        · exact hfinish _ _
        · rfl
    | finished r => exact hfinish s r
    | _ => rfl
  | finish i =>
    cases he
    rw [handle, finish]
    split <;> rfl
  | expire i =>
    cases he
    simp only [handle, expire, hj, hdone, if_true]
  | deliver i o => exact cache_completeAlone ..
  | rested => cases he
  | wake w => cases he

/-- The result of a job that was expected is what the job tells. -/
theorem Faithful.finishTask {timeout : Nat} {r : Reply} (h : Faithful verdict expect s) (hj : s.jobs[m]? = some j)
    (hnone : j.outcome = none) (hexpect : expect j.content = .ok (.ofResult j.content (resultOf j.argv r))) :
    KeepsTime verdict expect timeout m (s.finishTask m j r) := by
  obtain ⟨ho, hfaithful⟩ := h.conclude hexpect
  have hjobs : (s.conclude j.content (resultOf j.argv r)).2.jobs = s.jobs := by
    unfold Service.conclude
    dsimp only
    split <;> rfl
  have hundone : ¬ j.done = true := by simp [Promise.done, hnone]
  rw [Service.finishTask, if_neg hundone]
  dsimp only
  rw [ho]
  exact (told_completeInTask (hjobs ▸ hj) hnone _).keepsTime hfaithful hexpect

/-- The clock of a job whose formatter has just been started. -/
def started (m now delay timeout : Nat) : Clock where
  now := now
  timers := Clock.insert ⟨now + delay, .finish m⟩ [⟨now + timeout, .expire m⟩]

theorem next?_started_of_lt {now delay timeout : Nat} (h : delay < timeout) : (started m now delay timeout).next?
    = some (.finish m, { now := now + delay, timers := [⟨now + timeout, .expire m⟩] }) := by
  have hlate : ¬ timeout ≤ delay := by omega
  simp [started, Clock.insert, Clock.next?, Clock.advance, hlate]

theorem next?_started_of_le {now delay timeout : Nat} (h : timeout ≤ delay) :
    ∃ d, (started m now delay timeout).next? = some (.expire m, d) := by
  simp [started, Clock.insert, Clock.next?, h]

theorem resume_of_ready (hj : s.jobs[m]? = some j) (htask : j.task = .ready) {r : Reply}
    (hreply : s.formatter s.runs.length ⟨j.argv, j.wrapped, none⟩ = r) :
    s.resume m =
      let u : Service := { s with runs := s.runs ++ [⟨j.argv, j.wrapped, none⟩] }
      match r.startFault with
      | some reason => (u.warnStart j.argv reason).completeInTask m (.failed j.content .notStarted)
      | none =>
        if r.delay = 0 then u.finishTask m j r
        else (u.modifyJob m fun j => { j with task := .running r }).after r.delay (.finish m) := by
  subst hreply
  rw [resume, hj]
  dsimp only
  rw [htask]
  rfl

theorem finish_of_running {r : Reply} (hj : s.jobs[m]? = some j) (htask : j.task = .running r) :
    s.finish m = (s.modifyJob m fun j => { j with task := .finished r }).push (.resume m) := by
  obtain ⟨p, content, listener, wrapped, argv, deadline, task⟩ := j
  cases htask
  simp only [finish, hj]

theorem resume_of_finished {r : Reply} (hj : s.jobs[m]? = some j) (htask : j.task = .finished r) :
    s.resume m = s.finishTask m j r := by
  simp only [resume, hj, htask]

theorem expire_of_running {r : Reply} (hj : s.jobs[m]? = some j) (hnone : j.outcome = none)
    (htask : j.task = .running r) :
    s.expire m = (s.stop m (.running r)).completeAlone m (.failed j.content .timedOut) := by
  have hundone : ¬ j.done = true := by simp [Promise.done, hnone]
  simp only [expire, hj, hundone, htask]
  rfl

/-- The first step of a job's task: its run is told at once, or goes on until it finishes or its deadline is over. -/
theorem resume_ready {now timeout : Nat} (hs : Faithful verdict expect s) (htimeout : s.config.timeoutMs = timeout)
    (hsorted : s.clock.Sorted) (hj : s.jobs[m]? = some j) (hnone : j.outcome = none) (htask : j.task = .ready)
    (hclock : s.clock.of m = { now, timers := [⟨now + timeout, .expire m⟩] })
    (hexpect : expect j.content = .ok ((verdict j.argv j.wrapped).outcome j.content j.argv)) :
    KeepsTime verdict expect timeout m (s.resume m) := by
  have hgives := hs.follows s.runs.length ⟨j.argv, j.wrapped, none⟩
  rw [htimeout] at hgives
  generalize hreply : s.formatter s.runs.length ⟨j.argv, j.wrapped, none⟩ = r at hgives
  rw [resume_of_ready hj htask hreply]
  -- the run alone changes nothing that counts
  generalize hu : ({ s with runs := s.runs ++ [⟨j.argv, j.wrapped, none⟩] } : Service) = u
  have hfaithful : Faithful verdict expect u := hu ▸ hs.congr rfl rfl rfl rfl
  have hju : u.jobs[m]? = some j := hu ▸ hj
  have hcu : u.clock = s.clock := hu ▸ rfl
  -- what becomes of the task while the formatter is running
  have hof : (u.clock.after r.delay (.finish m)).of m = started m now r.delay timeout :=
    (Clock.of_after_self rfl (hcu ▸ hsorted) r.delay).trans (by rw [hcu, hclock]; rfl)
  have hjob : ((u.modifyJob m fun j => { j with task := .running r }).after r.delay (.finish m)).jobs[m]?
      = some { j with task := .running r } := getElem?_modifyJob hju _
  have goesOn (hphase : Phase verdict expect timeout (started m now r.delay timeout) m { j with task := .running r }) :
      KeepsTime verdict expect timeout m
        ((u.modifyJob m fun j => { j with task := .running r }).after r.delay (.finish m)) :=
    ⟨hfaithful.congr rfl rfl rfl rfl, _, hjob, .inr ⟨hnone, hof ▸ hphase⟩⟩
  rcases Gives.cases hgives j.content j.argv with ⟨reason, hreason, hout⟩ | ⟨hstart, ⟨_, hdelay, hout⟩ | ⟨_, hpos, hdelay, hout⟩⟩
  · rw [hreason]
    have hwarn : Faithful verdict expect (u.warnStart j.argv reason) := hfaithful.congr rfl rfl rfl rfl
    exact (told_completeInTask (s := u.warnStart j.argv reason) hju hnone _).keepsTime hwarn (hout ▸ hexpect)
  · rw [hstart]
    dsimp only
    split
    · exact hfaithful.finishTask hju hnone (hout ▸ hexpect)
    · exact goesOn (.running rfl (next?_started_of_lt hdelay) rfl (hout ▸ hexpect))
  · rw [hstart]
    dsimp only
    obtain ⟨d, hnext⟩ := next?_started_of_le hdelay
    rw [if_neg (by omega)]
    exact goesOn (.late rfl hnext (hout ▸ hexpect))

/-- The event that is next for a job without an outcome lets it tell what is expected, or brings it nearer to that. -/
theorem Phase.handle {d : Clock} (h : Phase verdict expect s.config.timeoutMs d m j) (hs : Faithful verdict expect s)
    (hsorted : s.clock.Sorted) (hj : s.jobs[m]? = some j) (hnone : j.outcome = none)
    (hnext : d.next? = some (e, s.clock.of m)) : KeepsTime verdict expect s.config.timeoutMs m (handle s e) := by
  cases h with
  | @delivery o _ hfirst hexpect =>
    obtain ⟨rfl, -⟩ := Prod.mk.inj (Option.some.inj (hnext.symm.trans hfirst))
    exact (told_completeAlone hj hnone o).keepsTime hs hexpect
  | ready htask hqueue htimers hexpect =>
    have hfirst : d.next? = some (.resume m, { d with queue := [] }) := by rw [Clock.next?, hqueue]
    obtain ⟨rfl, hclock⟩ := Prod.mk.inj (Option.some.inj (hnext.symm.trans hfirst))
    exact resume_ready hs rfl hsorted hj hnone htask (by rw [hclock, htimers]) hexpect
  | @running r _ htask hfirst hfree hexpect =>
    obtain ⟨rfl, rfl⟩ := Prod.mk.inj (Option.some.inj (hnext.symm.trans hfirst))
    rw [Service.handle, finish_of_running hj htask]
    refine ⟨hs.congr rfl rfl rfl rfl, { j with task := .finished r }, ?_, .inr ⟨hnone, .finished rfl ?_ hexpect⟩⟩
    · exact getElem?_modifyJob hj _
    · have hof : (s.push (.resume m)).clock.of m = (s.clock.of m).push (.resume m) := Clock.of_push_self rfl _
      exact (congrArg Clock.queue hof).trans (by rw [Clock.push, hfree, List.nil_append])
  | @finished r htask hqueue hexpect =>
    have hfirst : d.next? = some (.resume m, { d with queue := [] }) := by rw [Clock.next?, hqueue]
    obtain ⟨rfl, -⟩ := Prod.mk.inj (Option.some.inj (hnext.symm.trans hfirst))
    rw [Service.handle, resume_of_finished hj htask]
    exact hs.finishTask hj hnone hexpect
  | @late r _ htask hfirst hexpect =>
    obtain ⟨rfl, -⟩ := Prod.mk.inj (Option.some.inj (hnext.symm.trans hfirst))
    rw [Service.handle, expire_of_running hj hnone htask]
    have hstop : (s.stop m (.running r)).jobs[m]? = some { j with task := .stopping true } := getElem?_modifyJob hj _
    exact (told_completeAlone hstop hnone _).keepsTime (hs.congr rfl rfl rfl rfl) hexpect

/-! ## Events -/

/-- Everything asked for is told as expected, or will be. -/
structure Timely (verdict : List Text → Text → Verdict) (expect : Text → Except Fault Outcome) (s : Service) :
    Prop extends Faithful verdict expect s where
  sorted : s.clock.Sorted
  unasked : ∀ n, s.jobs.length ≤ n → s.clock.of n = { now := s.clock.now }
  jobs : ∀ n j, s.jobs[n]? = some j → OnTime verdict expect s.config.timeoutMs (s.clock.of n) n j

namespace Timely

/-- What is next for others leaves a job on time. -/
theorem passes {c : Clock} (h : Timely verdict expect s) (hnext : s.clock.next? = some (e, c)) (he : e.job? ≠ some n)
    (hj : s.jobs[n]? = some j) : OnTime verdict expect s.config.timeoutMs (c.of n) n j := by
  rcases h.jobs n j hj with htold | ⟨hnone, hphase⟩
  · exact .inl htold
  · exact .inr ⟨hnone, hphase.pass (h.sorted.of n) (Clock.of_next?_other h.sorted hnext he)⟩

theorem unasked_next {c : Clock} (h : Timely verdict expect s) (hnext : s.clock.next? = some (e, c))
    (hn : s.jobs.length ≤ n) : e.job? ≠ some n ∧ c.of n = { now := c.now } := by
  have hempty := h.unasked n hn
  have he : e.job? ≠ some n := by
    intro he
    have hself := Clock.of_next?_self h.sorted hnext he
    rw [hempty] at hself
    cases hself
  refine ⟨he, ?_⟩
  rcases Clock.of_next?_other h.sorted hnext he with hsame | ⟨_, _, hadvance⟩
  · rw [hsame, hempty]
    have hnow : (c.of n).now = (s.clock.of n).now := congrArg Clock.now hsame
    rw [show c.now = s.clock.now from hnow]
  · rw [hadvance, hempty]
    rfl

/-- What changes nothing of the clock, the jobs and the cache. -/
theorem congr (h : Timely verdict expect s) (hconfig : t.config = s.config) (hformatter : t.formatter = s.formatter)
    (hlocate : t.locate.1 = s.locate.1) (hcache : t.cache = s.cache) (hclock : t.clock = s.clock)
    (hjobs : t.jobs = s.jobs) : Timely verdict expect t where
  toFaithful := h.toFaithful.congr hconfig hformatter hlocate hcache
  sorted := hclock ▸ h.sorted
  unasked n hn := by
    rw [hclock]
    exact h.unasked n (hjobs ▸ hn)
  jobs n j hj := by
    rw [hclock, hconfig]
    exact h.jobs n j (hjobs ▸ hj)

section Next

variable {c : Clock} (h : Timely verdict expect s) (hnext : s.clock.next? = some (e, c))

include h hnext

/-- An event about no job leaves all jobs on time. -/
theorem handle_aside (hnone : s.NoneReady) (he : e.job? = none) :
    Timely verdict expect (handle { s with clock := c } e) := by
  have hother (n : Nat) : e.job? ≠ some n := by simp [he]
  have hsorted : c.Sorted := h.sorted.next? hnext
  obtain ⟨ws, waits, awake, hhandle⟩ := NoneReady.handle_aside (s := { s with clock := c }) hnone he
  rw [hhandle]
  refine ⟨h.toFaithful.congr rfl rfl rfl rfl, hsorted, fun n hn => ?_, fun n j hj => ?_⟩
  · exact (Clock.of_wake c ws n).trans (h.unasked_next hnext hn).2
  · rw [show Clock.of _ n = c.of n from Clock.of_wake c ws n]
    exact h.passes hnext (hother n) hj

theorem keepsTime_handle (he : e.job? = some m) :
    KeepsTime verdict expect s.config.timeoutMs m (handle { s with clock := c } e) := by
  have hlt : m < s.jobs.length := by
    by_contra hge
    exact (h.unasked_next hnext (Nat.le_of_not_lt hge)).1 he
  obtain ⟨j, hj⟩ : ∃ j, s.jobs[m]? = some j := ⟨_, List.getElem?_eq_getElem hlt⟩
  have hfaithful : Faithful verdict expect { s with clock := c } := h.toFaithful.congr rfl rfl rfl rfl
  rcases h.jobs m j hj with ⟨o, ho, hexpect⟩ | ⟨hundone, hphase⟩
  · -- an outcome is final, and what is left of the task is too late for the cache
    have hact : Step s (.event e) (handle { s with clock := c } e) := .event (Clock.pending_of_next? hnext)
    have hdone : j.done = true := by simp [Promise.done, ho]
    have haltered := altered_handle he { s with clock := c }
    obtain ⟨j', hj', ho', _⟩ := hact.effects.outcome hj ho
    obtain ⟨k, hk, _, hcontent⟩ := hact.effects.listener hj
    cases hj'.symm.trans hk
    exact ⟨hfaithful.of_scene haltered.setting.toSameScene (cache_handle_of_done hj hdone he), j', hj',
      .inl ⟨o, ho', by rw [hcontent, hexpect]⟩⟩
  · exact Phase.handle (s := { s with clock := c }) hphase hfaithful (h.sorted.next? hnext) hj hundone
      (Clock.of_next?_self h.sorted hnext he)

/-- An event about a job leaves the other jobs on time, too. -/
theorem handle_of_job (he : e.job? = some m) : Timely verdict expect (handle { s with clock := c } e) := by
  obtain ⟨hfaithful, j', hj', htime⟩ := h.keepsTime_handle hnext he
  have haltered := altered_handle he { s with clock := c }
  have hapart := haltered.apart
  have hconfig : (handle { s with clock := c } e).config = s.config := haltered.setting.config
  have hnow : (handle { s with clock := c } e).clock.now = c.now := haltered.setting.now
  refine ⟨hfaithful, hapart.sorted (h.sorted.next? hnext), fun n hn => ?_, fun n k hk => ?_⟩
  · have hn' : s.jobs.length ≤ n := hapart.length ▸ hn
    obtain ⟨hne, hof⟩ := h.unasked_next hnext hn'
    rw [hnow]
    exact (hapart.clock n fun hn => hne (hn ▸ he)).trans hof
  · rw [hconfig]
    by_cases hn : n = m
    · subst hn
      cases hk.symm.trans hj'
      exact htime
    · rw [hapart.clock n hn]
      rw [hapart.job n hn] at hk
      exact h.passes hnext (by rw [he]; exact fun h => hn (Option.some.inj h).symm) hk

end Next

theorem step? (h : Timely verdict expect s) (hnone : s.NoneReady) (hstep : s.step? = some t) : Timely verdict expect t := by
  unfold Service.step? at hstep
  split at hstep
  · cases hstep
  · rename_i e c hnext
    cases hstep
    cases he : e.job? with
    | none => exact h.handle_aside hnext hnone he
    | some m => exact h.handle_of_job hnext he

theorem runSteps (h : Timely verdict expect s) (hnone : s.NoneReady) (fuel : Nat) :
    Timely verdict expect (runSteps fuel s) := by
  induction fuel generalizing s with
  | zero => exact h
  | succ fuel ih =>
    rw [Service.runSteps]
    split
    · exact h
    · split
      · exact h
      · rename_i t ht
        obtain ⟨e, hstep⟩ := step_of_step? ht
        exact ih (h.step? hnone ht) ((hnone.idles hstep).waits hnone)

theorem await (h : Timely verdict expect s) (hnone : s.NoneReady) (n : Nat) : Timely verdict expect (s.await n) := by
  have hbatches : Timely verdict expect (s.awaitBatch n .program).2 := by
    unfold awaitBatch
    split
    · exact h
    · split
      · exact h
      · exact h.congr rfl rfl rfl rfl rfl rfl
  have hwaits : (s.awaitBatch n .program).2.NoneReady := (s.idles_awaitBatch n .program).waits hnone
  unfold Service.await
  split <;> rename_i t ht <;> rw [ht] at hbatches hwaits
  · have hasleep : Timely verdict expect { t with awake := false } := hbatches.congr rfl rfl rfl rfl rfl rfl
    exact (hasleep.runSteps hwaits t.bound).congr rfl rfl rfl rfl rfl rfl
  · exact hbatches

/-! ## Requests -/

/-- One more job, of which it is known what is next. -/
theorem addJob (h : Timely verdict expect s) (hfaithful : Faithful verdict expect t) (hconfig : t.config = s.config)
    (hjobs : t.jobs = s.jobs ++ [j]) (hsorted : t.clock.Sorted) (hnow : t.clock.now = s.clock.now)
    (hother : ∀ n, n ≠ s.jobs.length → t.clock.of n = s.clock.of n)
    (hnew : OnTime verdict expect s.config.timeoutMs (t.clock.of s.jobs.length) s.jobs.length j) :
    Timely verdict expect t where
  toFaithful := hfaithful
  sorted := hsorted
  unasked n hn := by
    rw [hjobs, List.length_append, List.length_singleton] at hn
    rw [hother n (by omega), hnow]
    exact h.unasked n (by omega)
  jobs n k hk := by
    rw [hconfig]
    rw [hjobs] at hk
    by_cases hn : n = s.jobs.length
    · subst hn
      rw [List.getElem?_append_right (Nat.le_refl _), Nat.sub_self] at hk
      cases hk
      exact hnew
    · rw [hother n hn]
      rcases Nat.lt_or_ge n s.jobs.length with hlt | hge
      · rw [List.getElem?_append_left hlt] at hk
        exact h.jobs n k hk
      · have := (List.getElem?_eq_some_iff.mp hk).1
        rw [List.length_append, List.length_singleton] at this
        omega

theorem request (h : Timely verdict expect s) (content : Text) (l : Listener) :
    Timely verdict expect (s.request content l).2 := by
  have hfree := h.unasked s.jobs.length (Nat.le_refl _)
  have hne {e : Event} (he : e.job? = some s.jobs.length) (n : Nat) (hn : n ≠ s.jobs.length) : e.job? ≠ some n :=
    fun h => hn (Option.some.inj (h.symm.trans he))
  unfold Service.request
  dsimp only
  split
  · rename_i text hhit
    -- the cache answers as expected, only later
    refine h.addJob (j := { content, listener := l }) (h.toFaithful.congr rfl rfl rfl rfl) rfl rfl
      (h.sorted.after _ _) rfl (fun n hn => Clock.of_after_other (hne rfl n hn) _ _) (.inr ⟨rfl, ?_⟩)
    have hof := Clock.of_after_self (n := s.jobs.length) (e := .deliver s.jobs.length ⟨text, none⟩) rfl h.sorted hitDelay
    rw [hfree] at hof
    exact .delivery (congrArg Clock.next? hof) (h.cached content text hhit)
  · rcases hl : s.locate with ⟨found, u⟩
    have hc : s.locate.1 = found := congrArg Prod.fst hl
    obtain rfl : s.locate.2 = u := congrArg Prod.snd hl
    have hu : Timely verdict expect s.locate.2 :=
      h.congr rfl rfl (Locator.locate_locate s.which s.locator) rfl rfl rfl
    cases found with
    | none =>
      dsimp only
      refine hu.addJob (j := { content, listener := l }) (hu.toFaithful.congr rfl rfl rfl rfl) rfl rfl hu.sorted rfl
        (fun n hn => Clock.of_push_other (hne rfl n hn) _) (.inr ⟨rfl, ?_⟩)
      have hof := Clock.of_push_self (n := s.jobs.length)
        (e := .deliver s.jobs.length (.failed content .notFound)) rfl s.clock
      rw [hfree] at hof
      exact .delivery (congrArg Clock.next? hof) (h.expect_of_not_found hc content)
    | some c =>
      dsimp only
      split
      · exact hu
      · rename_i argv ha
        refine hu.addJob (hu.toFaithful.congr rfl rfl rfl rfl) rfl rfl ((hu.sorted.push _).after _ _) rfl
          (fun n hn => (Clock.of_after_other (hne rfl n hn) _ _).trans (Clock.of_push_other (hne rfl n hn) _))
          (.inr ⟨rfl, ?_⟩)
        have hof : Clock.of ((s.clock.push (.resume s.jobs.length)).after s.config.timeoutMs (.expire s.jobs.length))
            s.jobs.length = ⟨s.clock.now, [.resume s.jobs.length],
              [⟨s.clock.now + s.config.timeoutMs, .expire s.jobs.length⟩]⟩ := by
          rw [Clock.of_after_self rfl (h.sorted.push _), Clock.of_push_self rfl, hfree]
          rfl
        exact .ready rfl (congrArg Clock.queue hof) (congrArg Clock.timers hof) (h.expect_of_argv hc ha content)

theorem requestSlots (h : Timely verdict expect s) (batch : Nat) (segments : List Segment) (places : List Nat) :
    Timely verdict expect (s.requestSlots batch segments places).2 := by
  induction places generalizing s with
  | nil => exact h
  | cons i r ih =>
    rw [Service.requestSlots]
    split
    · exact ih h
    · rename_i seg _
      have hrequest := h.request seg.content (.slot batch i)
      split <;> rename_i t ht <;> rw [ht] at hrequest
      · exact hrequest
      · exact ih hrequest

theorem startBatch (h : Timely verdict expect s) (segments : List Segment) (shown : Shown) :
    Timely verdict expect (s.startBatch segments shown).2 := by
  have hopen (bs : List Batch) : Timely verdict expect { s with batches := bs } := h.congr rfl rfl rfl rfl rfl rfl
  exact (hopen _).requestSlots _ segments _

theorem display (h : Timely verdict expect s) (shown : Shown) (format : Option Bool) :
    Timely verdict expect (s.display shown format).1 := by
  by_cases hne : shown.diagnostic.message = []
  · rw [display_of_empty hne]
    exact h
  obtain ⟨_, _, haside, _⟩ := present_aside s shown
  have hpresent : Timely verdict expect (s.present shown) := by
    rw [haside]
    exact h.congr rfl rfl rfl rfl rfl rfl
  rcases display_cases hne s format with hdisplay | ⟨u, p, rfl, hdisplay⟩ <;> rw [hdisplay]
  · exact hpresent
  · exact (hpresent.startBatch _ shown).congr rfl rfl rfl rfl rfl rfl

theorem displayAwaited (h : Timely verdict expect s) (hnone : s.NoneReady) (shown : Shown) :
    Timely verdict expect (s.displayAwaited shown).2 := by
  have hdisplay := h.display shown (some true)
  rcases hp : s.display shown (some true) with ⟨t, res⟩
  have hready := hnone.display shown (some true)
  rw [hp] at hdisplay hready
  cases res with
  | error f =>
    rw [displayAwaited_of_fault hp]
    exact hdisplay
  | ok view =>
    cases hpending : t.session.pending with
    | none =>
      rw [displayAwaited_of_none hp hpending]
      exact hdisplay
    | some n =>
      rw [displayAwaited_of_pending hp hpending]
      exact hdisplay.await hready n

end Timely

/-! ## From the start -/

theorem get?_create (config : Config) (locator : Locator) (which : Which) (formatter : Formatter) (content : Text) :
    (create config locator which formatter).cache.get? content = none := by
  unfold Cache.get?
  split <;> rfl

theorem faithful_create {formatter : Formatter} (config : Config) (locator : Locator) (which : Which)
    (h : Follows formatter config.timeoutMs verdict) : Faithful verdict
      ((create config locator which formatter).expected verdict) (create config locator which formatter) where
  follows := h
  expected := rfl
  cached content text hhit := by cases (get?_create config locator which formatter content).symm.trans hhit

theorem timely_create {formatter : Formatter} (config : Config) (locator : Locator) (which : Which)
    (h : Follows formatter config.timeoutMs verdict) : Timely verdict
      ((create config locator which formatter).expected verdict) (create config locator which formatter) where
  toFaithful := faithful_create config locator which h
  sorted := List.Pairwise.nil
  unasked _ _ := rfl
  jobs _ _ hj := by simp [create] at hj

end Service

end Legible
