import Legible.Proofs.Service.Timely
/-!
# One completion for each promise

Whoever is told an outcome may do anything about it: end in an error, or try to complete the promise again and go on as
that turns out. None of it matters to the promise, since its outcome is fixed before its listener is told. So every
attempt of the listener is late (`Promise.follow_refused`), the first completion leaves the promise as it was fixed
(`Promise.complete_of_undone`), and all that come after it change nothing, however many there are. A job of the service
is completed in the same way, with the listener that it has (`Service.complete_job`).
-/

namespace Legible

namespace Reaction

variable {ε σ : Type}

/-- What a reaction ends in when all its attempts are late. -/
def refused : Reaction ε → Option ε
  | ends fault => fault
  | completes _ next => (next .late).refused

/-- What its attempts come to, one after another, each with the state behind it. -/
def answers (attempt : σ → Outcome → Completion ε × σ) : Reaction ε → σ → List (Completion ε × σ)
  | ends _, _ => []
  | completes o next, s => attempt s o :: (next (attempt s o).1).answers attempt (attempt s o).2

end Reaction

/-- What an attempt is made with: a text, and what went wrong if anything did. -/
structure Attempt where
  text : Text
  failure : Option FormatFailure
deriving DecidableEq, Repr

/-- The outcome that an attempt is to fix; a failure is put into words. -/
def Attempt.outcome (a : Attempt) : Outcome := ⟨a.text, a.failure.map FormatFailure.message⟩

namespace Promise

variable {ε : Type} {react : Outcome → Reaction ε} {p : Promise} {o : Outcome}

/-- Attempts to complete a promise, one after another. -/
def completeAll (react : Outcome → Reaction ε) (p : Promise) : List Attempt → List (Completion ε) × Promise
  | [] => ([], p)
  | a :: rest =>
    let first := p.complete react a.outcome
    let later := first.2.completeAll react rest
    (first.1 :: later.1, later.2)

/-! ## One attempt -/

theorem attempt_of_done (h : p.done = true) : p.attempt react o = (.late, ⟨p, h⟩) := by
  rw [attempt, dif_pos h]

/-- The attempts of a listener find the outcome fixed. -/
theorem follow_refused (r : Reaction ε) (q : { q : Promise // q.done = true }) :
    r.follow (fun q o => attempt react q.1 o) q = (r.refused, q) := by
  induction r with
  | ends fault => rfl
  | completes o next ih =>
    rw [Reaction.follow, attempt_of_done q.2]
    exact ih .late

theorem complete_of_done (h : p.done = true) : p.complete react o = (.late, p) := by
  rw [complete, attempt_of_done h]

theorem complete_of_undone (h : p.done = false) : p.complete react o = (.first (react o).refused, p.fix o) := by
  have hd : ¬ p.done = true := by simp [h]
  rw [complete, attempt, dif_neg hd, follow_refused]

/-- Each attempt of a listener is late and leaves the promise as it is. -/
theorem answers_of_done (h : p.done = true) (r : Reaction ε) {a : Completion ε × Promise}
    (ha : a ∈ r.answers (complete react) p) : a = (.late, p) := by
  induction r with
  | ends fault => cases ha
  | completes o next ih =>
    rw [Reaction.answers, complete_of_done h] at ha
    rcases List.mem_cons.mp ha with rfl | ha
    · rfl
    · exact ih .late ha

/-! ## Any number of attempts -/

theorem completeAll_of_done (h : p.done = true) (as : List Attempt) :
    p.completeAll react as = (as.map fun _ => .late, p) := by
  induction as with
  | nil => rfl
  | cons a as ih => rw [completeAll, complete_of_done h, ih, List.map_cons]

/-- The first of any attempts at a promise without an outcome is the only one that counts. Its text and its failure, put
into words, are the outcome from then on, and its listener is told them once, whatever the listener does; it succeeds,
or ends in the error of the listener. All further attempts are late and change nothing, those that the listener makes
included. The promise has no timer any more. -/
theorem first_completion_wins (react : Outcome → Reaction ε) (h : p.done = false) (a : Attempt) (as : List Attempt) :
    let (results, q) := p.completeAll react (a :: as)
    results = .first (react a.outcome).refused :: as.map (fun _ => .late) ∧
      q.outcome = some a.outcome ∧ q.done = true ∧ q.timed = false ∧ q.told = p.told ++ [a.outcome] ∧
      (∀ b ∈ (react a.outcome).answers (complete react) (p.fix a.outcome), b = (.late, p.fix a.outcome)) ∧
      ∀ more, q.completeAll react more = (more.map fun _ => .late, q) := by
  have hall : p.completeAll react (a :: as) =
      (.first (react a.outcome).refused :: as.map (fun _ => .late), p.fix a.outcome) := by
    rw [completeAll, complete_of_undone h, completeAll_of_done (done_fix ..)]
  rw [hall]
  exact ⟨rfl, rfl, rfl, rfl, rfl, fun b hb => answers_of_done (done_fix ..) _ hb, completeAll_of_done (done_fix ..)⟩

/-- A listener that tries twice more and then fails: it is told once, and its error goes to the first caller. -/
theorem obstinate_listener_is_told_once :
    let react : Outcome → Reaction Fault := fun o =>
      .completes o fun c => .completes ⟨"again", none⟩ fun d =>
        .ends (if c = .late && d = .late then some .callback else none)
    let p : Promise := { timed := true }
    let (results, q) := p.completeAll react [⟨"raw", some .timedOut⟩, ⟨"pretty", none⟩]
    p.done = false ∧ results = [.first (some .callback), .late] ∧
      q.outcome = some ⟨"raw", some "Prettier timed out"⟩ ∧ q.timed = false ∧ q.told = q.outcome.toList := by
  intro react p
  have hp : p.done = false := rfl
  obtain ⟨hresults, houtcome, -, htimed, htold, -⟩ :=
    first_completion_wins react hp ⟨"raw", some .timedOut⟩ [⟨"pretty", none⟩]
  exact ⟨hp, hresults, houtcome, htimed, htold.trans (by rw [houtcome]; rfl)⟩

end Promise

namespace Service

/-- The promise of a job, whose listener never tries to complete it. -/
theorem complete_job {s : Service} {n : Nat} {j : Job} (hj : s.jobs[n]? = some j) (o : Outcome) :
    ∃ fault : Option Fault, (s.complete n o).2 = (j.toPromise.complete (fun _ => .ends fault) o).1 ∧
      (s.complete n o).1.jobs[n]?.map Job.toPromise = some (j.toPromise.complete (fun _ => .ends fault) o).2 := by
  have hjob : (s.complete n o).1.jobs[n]? = some (j.completed o) := by
    rw [jobs_complete, List.getElem?_modify_eq, hj]
    rfl
  rw [hjob]
  by_cases hd : j.done = true
  · refine ⟨none, ?_⟩
    rw [Promise.complete_of_done hd, Job.completed, if_pos hd]
    simp [complete, hj, hd]
  · refine ⟨((s.modifyJob n fun j => { j with toPromise := j.fix o }).tell j.listener o).2, ?_⟩
    rw [Promise.complete_of_undone (by simpa using hd), Job.completed, if_neg hd]
    simp [complete, hj, hd, Reaction.refused]

end Service

end Legible
