import Legible.Proofs.Service.Jobs
import Legible.Proofs.Service.Rest
/-!
# Every request is answered once

From the act that asks for a type on, whatever happens: its listener is told at most one outcome, and has been
told one when nothing is left to do. The outcome is the cached text, the formatter's, or the type as it was
and an error, unless the program is the first to complete the job. A request that is refused adds nothing, and
nobody is told anything yet when a request is over.
-/

namespace Legible

/-- The outcomes of a request that the program does not complete itself. What the cache held for the type
when it was asked for is `cached`. -/
inductive Explains (formatter : Formatter) (runs : List Run) (cached : Option Text) (content : Text) :
    Outcome → Prop
  | cached {t : Text} : cached = some t → Explains formatter runs cached content ⟨t, none⟩
  | formatted {k : Nat} {run : Run} : cached = none → runs[k]? = some run →
      run.stdin = Wrapping.wrap content → (formatter k run).startFault = none →
      (formatter k run).status = 0 → (formatter k run).stdout ≠ [] →
      Explains formatter runs cached content ⟨Wrapping.unwrap (formatter k run).stdout, none⟩
  | failed {e : Text} : cached = none → Explains formatter runs cached content ⟨content, some e⟩

namespace Service

open Ledger

variable {a : Act} {c₀ c d : Ledger} {cached : Option Text} {content : Text} {l : Listener} {n : Nat} {j : Job}

theorem Effect.explains (h : Effect a c₀ c d) {o : Outcome} (ho : Explains c.formatter c.runs cached content o) :
    Explains d.formatter d.runs cached content o := by
  have same (hf : d.formatter = c.formatter) (hr : d.runs = c.runs) :
      Explains d.formatter d.runs cached content o := by
    rw [hf, hr]
    exact ho
  cases h with
  | run r =>
    cases ho with
    | cached hc => exact .cached hc
    | @formatted k run hc hk hin hs hst hout =>
      obtain ⟨hlt, _⟩ := List.getElem?_eq_some_iff.mp hk
      exact .formatted hc (by simpa [List.getElem?_append_left hlt] using hk) hin hs hst hout
    | failed hc => exact .failed hc
  | complete => exact same (formatter_complete ..) (runs_complete ..)
  | _ => exact same rfl rfl

theorem Effects.explains (h : Effects a c₀ c d) {o : Outcome} (ho : Explains c.formatter c.runs cached content o) :
    Explains d.formatter d.runs cached content o := by
  induction h with
  | refl => exact ho
  | tail _ heff ih => exact heff.explains ih

/-- A job of number `n` that was asked for when the cache held `cached` for its type. -/
structure Keeps (cached : Option Text) (content : Text) (l : Listener) (n : Nat) (c : Ledger) (j : Job) : Prop where
  content_eq : j.content = content
  listener_eq : j.listener = l
  hit : j.task ≠ .none → cached = none
  wrapped : j.task ≠ .none → j.wrapped = Wrapping.wrap content
  due : ∀ e ∈ c.due, e.Completes n → (∃ t, cached = some t ∧ e = .deliver n ⟨t, none⟩) ∨
    cached = none ∧ (e = .expire n ∨ e = .deliver n (.failed content .notFound))

theorem keeps_of_asks {es : Multiset Event} (h : Asks cached c.jobs.length content l j es)
    (hknown : ∀ e ∈ c.due, ∀ n, e.job? = some n → n < c.jobs.length) :
    Keeps cached content l c.jobs.length (c.ask j es) j := by
  have old (e : Event) (he : e ∈ c.due) : ¬ e.Completes c.jobs.length := by
    intro hce
    have hlt := hknown e he c.jobs.length
    cases e with
    | expire m =>
      cases hce
      exact Nat.lt_irrefl _ (hlt rfl)
    | deliver m o =>
      cases hce
      exact Nat.lt_irrefl _ (hlt rfl)
    | _ => exact hce
  have due {P : Event → Prop} (hes : ∀ e ∈ es, P e) (e : Event) (he : e ∈ (c.ask j es).due)
      (hce : e.Completes c.jobs.length) : P e := by
    rcases Multiset.mem_add.mp he with he | he
    · exact hes e he
    · exact absurd hce (old e he)
  cases h with
  | hit ht =>
    refine ⟨rfl, rfl, fun h => absurd rfl h, fun h => absurd rfl h, due fun e he => .inl ⟨_, ht, ?_⟩⟩
    exact Multiset.mem_singleton.mp he
  | missing hc =>
    refine ⟨rfl, rfl, fun h => absurd rfl h, fun h => absurd rfl h, due fun e he => .inr ⟨hc, .inr ?_⟩⟩
    exact Multiset.mem_singleton.mp he
  | started hc =>
    refine ⟨rfl, rfl, fun _ => hc, fun _ => rfl, ?_⟩
    intro e he hce
    rcases Multiset.mem_add.mp he with he | he
    · rcases Multiset.mem_cons.mp he with rfl | he
      · exact .inr ⟨hc, .inl rfl⟩
      · rw [Multiset.mem_singleton.mp he] at hce
        exact hce.elim
    · exact absurd hce (old e he)

theorem Effect.keeps (h : Effect a c₀ c d) (hj : c.jobs[n]? = some j) (hk : Keeps cached content l n c j) :
    ∃ j', d.jobs[n]? = some j' ∧ Turn a c n j j' ∧ Keeps cached content l n d j' := by
  obtain ⟨j', hj', hturn⟩ := h.turn hj
  obtain ⟨hn, _⟩ := List.getElem?_eq_some_iff.mp hj
  have hdue : ∀ e ∈ d.due, e.Completes n → (∃ t, cached = some t ∧ e = .deliver n ⟨t, none⟩) ∨
      cached = none ∧ (e = .expire n ∨ e = .deliver n (.failed content .notFound)) := by
    intro e he hce
    rcases h.new_due he with he | ⟨m, _, rfl | rfl⟩ | ⟨_, _, _, es, hask, rfl, hes⟩
    · exact hk.due e he hce
    · exact hce.elim
    · exact hce.elim
    · -- a new job has another number
      obtain ⟨_, _, _, _, _, _, hjob⟩ := hask.new
      have hnew := hjob e hes
      have hold : e.job? = some n := by
        cases e with
        | expire | deliver => exact congrArg some hce
        | _ => exact hce.elim
      rw [hold, Option.some.injEq] at hnew
      omega
  refine ⟨j', hj', hturn, ?_⟩
  cases hturn with
  | keep => exact { hk with due := hdue }
  | task _ ht => exact ⟨hk.content_eq, hk.listener_eq, fun _ => hk.hit ht, fun _ => hk.wrapped ht, hdue⟩
  | fix => exact ⟨hk.content_eq, hk.listener_eq, hk.hit, hk.wrapped, hdue⟩

/-- What a job comes to is explained, unless the program completes it. -/
theorem Reason.explains {o : Outcome} (h : Reason a c n j o) (hj : c.jobs[n]? = some j) (hc : Sound c)
    (hk : Keeps cached content l n c j) (hin : ∀ e, a = .event e → e.Completes n → e ∈ c.due) :
    a = .move (.complete n o) ∨ Explains c.formatter c.runs cached content o := by
  have failed (f : FormatFailure) (hmiss : cached = none) :
      Explains c.formatter c.runs cached content (.failed j.content f) := by
    rw [hk.content_eq]
    exact .failed hmiss
  cases h with
  | own ha => exact .inl ha
  | delivered ha =>
    rcases hk.due _ (hin _ ha rfl) rfl with ⟨t, ht, he⟩ | ⟨hmiss, he | he⟩
    · cases he
      exact .inr (.cached ht)
    · cases he
    · cases he
      exact .inr (.failed hmiss)
  | expired ha =>
    -- only a job that is to run the formatter has a deadline
    rcases hk.due _ (hin _ ha rfl) rfl with ⟨_, _, he⟩ | ⟨hmiss, _⟩
    · cases he
    · exact .inr (failed _ hmiss)
  | notStarted ht => exact .inr (failed _ (hk.hit (by simp [ht])))
  | @replied r hr =>
    have hran : j.task ≠ .none ∧ c.Ran j.argv j.wrapped none r := by
      rcases hr with hr | ⟨ht, hran⟩
      · refine ⟨?_, hc.ran n j r hj hr⟩
        intro hnone
        rw [hnone] at hr
        cases hr
      · exact ⟨by simp [ht], hran⟩
    obtain ⟨ht, k, hrun, rfl, hstart⟩ := hran
    have hmiss := hk.hit ht
    right
    unfold Outcome.ofResult
    split
    · rename_i hok
      simp only [ProcessResult.ok, Bool.and_eq_true, decide_eq_true_eq, Bool.not_eq_true',
        List.isEmpty_eq_false_iff] at hok
      exact .formatted hmiss hrun (hk.wrapped ht) hstart hok.1 hok.2
    · exact failed _ hmiss

/-- What an act does to a job: all that is new among what it told is explained, or is told because the
program completes it. -/
theorem Effects.keeps (h : Effects a c₀ c d) (hj : c.jobs[n]? = some j) (hc : Sound c)
    (hk : Keeps cached content l n c j) (hin : ∀ e, a = .event e → e.Completes n → e ∈ c.due) :
    ∃ j', d.jobs[n]? = some j' ∧ Keeps cached content l n d j' ∧ (j'.done = false → j.done = false) ∧
      ∀ o ∈ j'.told, o ∈ j.told ∨ (a = .move (.complete n o) ∧ j.done = false) ∨
        Explains d.formatter d.runs cached content o := by
  suffices hsuff : Sound d ∧ (∀ e, a = .event e → e.Completes n → e ∈ d.due) ∧
      ∃ j', d.jobs[n]? = some j' ∧ Keeps cached content l n d j' ∧ (j'.done = false → j.done = false) ∧
        ∀ o ∈ j'.told, o ∈ j.told ∨ (a = .move (.complete n o) ∧ j.done = false) ∨
          Explains d.formatter d.runs cached content o from hsuff.2.2
  -- each effect needs the ledger before it to be sound, and the event that happens to be still due
  induction h with
  | refl => exact ⟨hc, hin, j, hj, hk, id, fun o ho => .inl ho⟩
  | @tail d₁ d₂ _ heff ih =>
    obtain ⟨hc₁, hin₁, j₁, hj₁, hk₁, hd₁, htold⟩ := ih
    obtain ⟨j₂, hj₂, hturn, hk₂⟩ := heff.keeps hj₁ hk₁
    have old {o : Outcome} (ho : o ∈ j₁.told) : o ∈ j.told ∨ (a = .move (.complete n o) ∧ j.done = false) ∨
        Explains d₂.formatter d₂.runs cached content o := by
      rcases htold o ho with ho | ho | ho
      · exact .inl ho
      · exact .inr (.inl ho)
      · exact .inr (.inr (heff.explains ho))
    refine ⟨heff.sound hc₁, fun e ha he => heff.due (hin₁ e ha he), j₂, hj₂, hk₂, ?_, ?_⟩
    · cases hturn with
      | keep => exact hd₁
      | task => exact hd₁
      | fix => exact fun h => nomatch h
    · cases hturn with
      | keep => exact fun o ho => old ho
      | task => exact fun o ho => old ho
      | fix _ hd hr =>
        intro o ho
        rcases List.mem_append.mp ho with ho | ho
        · exact old ho
        · cases List.mem_singleton.mp ho
          rcases hr.explains hj₁ hc₁ hk₁ hin₁ with ha | ho
          · exact .inr (.inl ⟨ha, hd₁ hd⟩)
          · exact .inr (.inr (heff.explains ho))

variable {s t u : Service}

/-- The program itself gives a job this outcome, before anything else does. -/
def Won (s : Service) (as : List Act) (n : Nat) (o : Outcome) : Prop :=
  ∃ bs cs t j, as = bs ++ .move (.complete n o) :: cs ∧ Course s bs t ∧ t.jobs[n]? = some j ∧ j.done = false

theorem Won.snoc {as : List Act} {o : Outcome} (h : Won s as n o) (b : Act) : Won s (as ++ [b]) n o := by
  obtain ⟨bs, cs, t, j, rfl, ht, hj⟩ := h
  exact ⟨bs, cs ++ [b], t, j, by simp, ht, hj⟩

/-- At any time, what a job has told is explained, or the program has completed it. -/
theorem Course.keeps {as : List Act} (h : Course s as t) (hj : s.jobs[n]? = some j) (hs : Sound (s.ledger 0))
    (hk : Keeps cached content l n (s.ledger 0) j) :
    ∃ j', t.jobs[n]? = some j' ∧ Keeps cached content l n (t.ledger 0) j' ∧
      ∀ o ∈ j'.told, o ∈ j.told ∨ Won s as n o ∨ Explains t.formatter t.runs cached content o := by
  induction h with
  | nil => exact ⟨j, hj, hk, fun o ho => .inl ho⟩
  | @snoc as b t u hcourse hstep ih =>
    obtain ⟨j₁, hj₁, hk₁, htold⟩ := ih
    have ht := hcourse.sound hs
    obtain ⟨j₂, hj₂, hk₂, _, hnew⟩ := hstep.effects.keeps hj₁ ht hk₁ hstep.due_of_completes
    have hfin : Keeps cached content l n (u.ledger 0) j₂ :=
      { hk₂ with due := fun e he => hk₂.due e (due_hand he) }
    refine ⟨j₂, hj₂, hfin, ?_⟩
    intro o ho
    rcases hnew o ho with ho | ⟨rfl, hd⟩ | ho
    · rcases htold o ho with ho | ho | ho
      · exact .inl ho
      · exact .inr (.inl (ho.snoc b))
      · exact .inr (.inr (hstep.effects.explains ho))
    · exact .inr (.inl ⟨as, [], t, j₁, rfl, hcourse, hj₁, hd⟩)
    · exact .inr (.inr ho)

/-! ## Requests -/

/-- A job that an act adds has told nothing when the act is over. -/
theorem Effects.asked (h : Effects a c₀ c₀ d) (hs : Sound c₀) (hn : c₀.jobs.length ≤ n) (hj : d.jobs[n]? = some j) :
    a.job? = none ∧ j.told = [] ∧ Keeps (c₀.cache.get? j.content) j.content j.listener n d j := by
  induction h generalizing j with
  | refl =>
    rw [List.getElem?_eq_none hn] at hj
    cases hj
  | @tail d₁ d₂ hpre heff ih =>
    have hd₁ : Sound d₁ := Effects.sound hpre hs
    rcases heff.turned hj with ⟨i, hi, _⟩ | ⟨content, l, es, ha, rfl, hask, _, rfl⟩
    · obtain ⟨ha, htold, hkeeps⟩ := ih hi
      obtain ⟨j', hj', hturn, hk⟩ := heff.keeps hi hkeeps
      cases hj.symm.trans hj'
      cases hturn with
      | keep => exact ⟨ha, htold, hk⟩
      | task ha' => exact nomatch ha.symm.trans ha'
      | fix ha' => exact nomatch ha.symm.trans ha'
    · obtain ⟨rfl, rfl, _, htold, _⟩ := hask.new
      exact ⟨ha, htold, keeps_of_asks hask hd₁.known⟩

theorem Step.asked (h : Step s a t) (hs : Sound (s.ledger 0)) (hn : s.jobs.length ≤ n) (hj : t.jobs[n]? = some j) :
    j.told = [] ∧ Keeps (s.cache.get? j.content) j.content j.listener n (t.ledger 0) j := by
  obtain ⟨_, htold, hk⟩ := h.effects.asked hs hn hj
  exact ⟨htold, { hk with due := fun e he => hk.due e (due_hand he) }⟩

/-- The settings let no run be started with a command: the width has too many digits, which only a formatter
that is no daemon is told, or the deadline is beyond all clocks. -/
def Unusable (config : Config) (c : Command) : Prop :=
  c.isDaemon = false ∧ Numeral.isTooWide config.printWidth = true ∨ Double.seconds? config.timeoutMs = none

theorem argv_eq_error_iff (c : Command) : (∃ f, s.argv c = .error f) ↔ Unusable s.config c := by
  unfold argv Unusable
  cases c.isDaemon <;> cases Numeral.isTooWide s.config.printWidth <;> cases Double.seconds? s.config.timeoutMs <;>
    simp

/-- No double holds so long a deadline. -/
theorem unusable_beyond (c : Command) : Unusable { Config.default with timeoutMs := 10 ^ 200 * 10 ^ 200 } c := by
  have hbeyond : (Double.seconds? (10 ^ 200 * 10 ^ 200)).isNone = true := by decide +kernel
  exact .inr (Option.isNone_iff_eq_none.mp hbeyond)

/-- A request is refused if and only if a run would be needed that cannot be started. -/
theorem request_eq_error_iff (s : Service) (content : Text) (l : Listener) :
    (∃ f, (s.request content l).1 = .error f) ↔
      s.cache.get? content = none ∧ ∃ c, s.locate.1 = some c ∧ Unusable s.config c := by
  simp only [← argv_eq_error_iff]
  constructor
  · rintro ⟨f, hf⟩
    rcases request_cases s content l 0 with ⟨_, _, _, hok, _⟩ | ⟨f', _, ⟨hmiss, c, hc, hargv⟩, _⟩
    · cases hok.symm.trans hf
    · exact ⟨hmiss, c, hc, f', hargv⟩
  · rintro ⟨hmiss, c, hc, f, hf⟩
    have hargv : s.locate.2.argv c = .error f := hf
    refine ⟨f, ?_⟩
    unfold request
    rw [hmiss]
    generalize s.locate = p at hc hargv
    obtain ⟨found, t⟩ := p
    cases hc
    simp only [hargv]

theorem notices_request (s : Service) (content : Text) (l : Listener) :
    (s.request content l).2.notices = s.notices := by
  have hloc : s.locate.2.notices = s.notices := rfl
  unfold request
  dsimp only
  split
  · rfl
  · split <;> rename_i hl <;> rw [hl] at hloc
    · exact hloc
    · split <;> exact hloc

/-- A request is refused exactly if a run would be needed that cannot be started under the settings; otherwise it adds a job
of its content and its listener. Whatever happens then, the job tells at most one outcome, and has told one when nothing
is left to do. Watchers heard what the jobs told, and the clock comes to rest. -/
theorem requests_are_answered_once {s₀ : Service} (h₀ : s₀.IsFresh) {as : List Act} (h : Course s₀ as s) :
    (∀ content l,
      ((∃ f, (s.request content l).1 = .error f) ↔
        s.cache.get? content = none ∧ ∃ c, s.locate.1 = some c ∧ Unusable s.config c) ∧
      (∀ f, (s.request content l).1 = .error f → (s.request content l).2.jobs = s.jobs) ∧
      (∀ i, (s.request content l).1 = .ok i → ∃ j, (s.request content l).2.jobs = s.jobs ++ [j] ∧
        j.content = content ∧ j.listener = l ∧ j.told = []) ∧
      (s.request content l).2.notices = s.notices) ∧
    (∀ a t n j, Step s a t → s.jobs.length ≤ n → t.jobs[n]? = some j →
      j.told = [] ∧ ∀ bs u, Course t bs u → ∃ j', u.jobs[n]? = some j' ∧
        j'.content = j.content ∧ j'.listener = j.listener ∧ j'.told.length ≤ 1 ∧
        (u.IsIdle → j'.told.length = 1) ∧
        ∀ o ∈ j'.told, Won t bs n o ∨ Explains u.formatter u.runs (s.cache.get? j.content) j.content o) ∧
    (s.notices.filterMap Notice.heard?).Perm (s.jobs.flatMap Job.heard) ∧
    ∃ t, Runs s t ∧ t.IsIdle := by
  have hs : Sound (s.ledger 0) := h.sound h₀.sound
  refine ⟨?_, ?_, hs.heard, ?_⟩
  · intro content l
    refine ⟨request_eq_error_iff s content l, ?_, ?_, notices_request s content l⟩
    · intro f hf
      rcases request_cases s content l 0 with ⟨_, _, _, hok, _⟩ | ⟨_, _, _, heq⟩
      · cases hok.symm.trans hf
      · exact congrArg Ledger.jobs heq
    · intro i hi
      rcases request_cases s content l 0 with ⟨_, j, _, _, hask, heq⟩ | ⟨_, hf, _⟩
      · obtain ⟨hcontent, hlis, _, htold, _⟩ := hask.new
        exact ⟨j, congrArg Ledger.jobs heq, hcontent, hlis, htold⟩
      · cases hf.symm.trans hi
  · intro a t n j hstep hn hj
    obtain ⟨htold, hk⟩ := hstep.asked hs hn hj
    refine ⟨htold, ?_⟩
    intro bs u hu
    have ht := hstep.sound hs
    obtain ⟨j', hj', hk', hexp⟩ := hu.keeps hj ht hk
    have hone := (hu.sound ht).told n j' hj'
    refine ⟨j', hj', hk'.content_eq, hk'.listener_eq, ?_, ?_, ?_⟩
    · rw [hone]
      cases j'.outcome <;> simp
    · intro hidle
      have hdone := (hu.sound ht).done_of_isIdle hidle hj'
      rw [hone]
      obtain ⟨o, ho⟩ := Option.isSome_iff_exists.mp hdone
      simp [ho]
    · intro o ho
      exact (hexp o ho).resolve_left (by simp [htold])
  · obtain ⟨t, hrun, hrest⟩ := exists_runs_to_rest s
    refine ⟨t, hrun, ?_⟩
    intro e he
    rw [hrest] at he
    exact absurd he (Multiset.notMem_zero e)

/-- A type that is asked for first: when its formatter has finished and its deadline has passed, the watcher
has been told one outcome. Under a deadline beyond all clocks it is refused. -/
theorem first_request_is_answered_once :
    let answered := create .default { fixed := some "prettier" } (fun _ => none)
      fun _ _ => { stdout := "type __TSErrorsType__ = string;\n", delay := 5 }
    let u := runSteps 4 (answered.request "string" (.watcher 7 false)).2
    let refused := create { Config.default with timeoutMs := 10 ^ 200 * 10 ^ 200 } { fixed := some "prettier" }
      (fun _ => none) fun _ _ => {}
    answered.IsFresh ∧ Course answered [] answered ∧ u.IsIdle ∧ u.jobs[0]?.map (·.told.length) = some 1 ∧
      refused.IsFresh ∧ ∃ f, (refused.request "string" (.watcher 7 false)).1 = .error f := by
  intro answered u refused
  have hfresh : answered.IsFresh := isFresh_create ..
  have hfresh' : refused.IsFresh := isFresh_create ..
  have hidle : u.IsIdle := by
    have hqueue : u.clock.queue = [] := by decide +kernel
    have htimers : u.clock.timers = [] := by decide +kernel
    intro e he
    rw [Clock.pending, hqueue, htimers] at he
    exact absurd he (Multiset.notMem_zero e)
  refine ⟨hfresh, .nil, hidle, ?_, hfresh', ?_⟩
  · obtain ⟨j, hj⟩ : ∃ j, (answered.request "string" (.watcher 7 false)).2.jobs[0]? = some j :=
      Option.isSome_iff_exists.mp (by decide +kernel)
    obtain ⟨bs, hbs⟩ := leads_runSteps 4 (answered.request "string" (.watcher 7 false)).2
    obtain ⟨_, hadded, _⟩ := requests_are_answered_once hfresh Course.nil
    have hstep : Step answered _ (answered.request "string" (.watcher 7 false)).2 :=
      .request answered "string" (.watcher 7 false) nofun
    have hnone : answered.jobs.length ≤ 0 := by rw [hfresh.jobs, List.length_nil]
    obtain ⟨_, hanswer⟩ := hadded _ _ 0 j hstep hnone hj
    obtain ⟨j', hj', _, _, _, hone, _⟩ := hanswer bs u hbs
    rw [hj', Option.map_some, hone hidle]
  · obtain ⟨hrequest, _⟩ := requests_are_answered_once hfresh' Course.nil
    obtain ⟨hrefused, _⟩ := hrequest "string" (.watcher 7 false)
    have hmiss : refused.cache.get? "string" = none := by decide +kernel
    obtain ⟨c, hc⟩ : ∃ c, refused.locate.1 = some c := Option.isSome_iff_exists.mp (by decide +kernel)
    exact hrefused.mpr ⟨hmiss, c, hc, unusable_beyond c⟩

end Service

end Legible
