import Legible.Service.Session
/-!
The course of events: one at a time, until the program goes on or nothing is left to happen.
-/

namespace Legible.Service

/-- A task that shows a diagnostic goes on. -/
def wakeTask (s : Service) (n : Nat) : Service :=
  match s.waits[n]? with
  | some (.ready shown) =>
    match s.displayAndAwait shown (.task n) with
    | (.now r, s) => { s with waits := s.waits.set n (.ended r) }
    | (.batch _, s) => { s with waits := s.waits.set n .waiting }
  | some .waiting => { s with waits := s.waits.set n (.ended (.ok s.session.view)) }
  | _ => s

/-- Lets an event happen. -/
def handle (s : Service) : Event → Service
  | .resume n => s.resume n
  | .finish n => s.finish n
  | .expire n => s.expire n
  | .deliver n o => s.completeAlone n o
  | .rested => s.push (.wake .program)
  | .wake .program => { s with awake := true }
  | .wake (.task n) => s.wakeTask n

/-- The next event, if there is one. -/
def step? (s : Service) : Option Service :=
  match s.clock.next? with
  | none => none
  | some (e, c) => some (handle { s with clock := c } e)

/-- Events until the program goes on. -/
def runSteps : Nat → Service → Service
  | 0, s => s
  | fuel + 1, s =>
    if s.awake then s
    else match s.step? with
      | none => s
      | some s => runSteps fuel s

/-- A bound on the events that can still happen: no job has more than four, no waiter more than one, and
a task that is yet to show its diagnostic starts no more jobs than the message has characters. -/
def bound (s : Service) : Nat :=
  let messages := s.waits.foldl (fun n w => match w with
    | .ready shown => n + shown.diagnostic.message.length
    | _ => n) 0
  let waiters := s.batches.foldl (fun n b => n + b.waiters.length) 0
  4 * (s.clock.queue.length + s.clock.timers.length + s.jobs.length + s.waits.length + messages) + waiters + 4

/-- Lets the program wait until it is woken. -/
def runUntilAwake (s : Service) : Service :=
  { (runSteps s.bound { s with awake := false }) with awake := false }

/-- Lets the program sleep; no time at all lets only those go first who stand in the queue. -/
def sleep (s : Service) (time : Nat) : Service :=
  (if time = 0 then s.push (.wake .program) else s.after time .rested).runUntilAwake

/-- Formats a type on the clock and waits for the outcome. -/
def formatAwaited (s : Service) (content : Text) : Except Fault (Option Outcome) × Service :=
  match s.request content .program with
  | (.error f, s) => (.error f, s)
  | (.ok _, s) =>
    let s := s.runUntilAwake
    (.ok s.received, { s with received := none })

/-- Shows a diagnostic and waits for its segments. -/
def displayAwaited (s : Service) (shown : Shown) : Except Fault (Option View) × Service :=
  match s.displayAndAwait shown .program with
  | (.now r, s) => (r, s)
  | (.batch _, s) =>
    let s := s.runUntilAwake
    (.ok s.session.view, s)

/-- Formats the segments of a diagnostic and, if so asked, waits for them. -/
def update (s : Service) (segments : List Segment) (shown : Shown) (wait : Bool) :
    Except Fault (Option (List Segment)) × Service :=
  if !s.onClock then (.error .noClock, s)
  else
    match s.startBatch segments shown with
    | (.error f, s) => (.error f, s)
    | (.ok n, s) =>
      if !wait then (.ok none, s)
      else
        let s := match s.awaitBatch n .program with
          | (true, s) => s.runUntilAwake
          | (false, s) => s
        (.ok ((s.batches[n]?).bind (·.result)), s)

end Legible.Service
