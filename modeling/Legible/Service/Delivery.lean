import Legible.Service.Basic
/-!
The end of a request: its outcome is fixed once, and then its listener hears of it.
-/

namespace Legible.Service

/-- Keeps a rendering of the diagnostic on display and hands it to the program, which may fail to take
it. -/
def putView (s : Service) (view : View) : Service × Except Fault View :=
  let s := { s with session := { s.session with view := some view } }
  match s.onRender with
  | none => (s, .ok view)
  | some fails =>
    let number := s.renderings.length
    ({ s with renderings := s.renderings ++ [(s.clock.now, view)] },
      if fails number then .error .render else .ok view)

/-- Renders the diagnostic on display, if its code can be written; the rendering before stays where it
cannot. -/
def render (s : Service) (d : Diagnostic) (segments : List Segment) : Service × Except Fault View :=
  match View.ofDiagnostic d segments s.config.title with
  | .ok view => s.putView view
  | .error e => (s, .error (.code e))

/-- Lets all who wait for a batch go on. -/
def wakeAll (s : Service) (ws : List Waiter) : Service := ws.foldl (fun s w => s.push (.wake w)) s

/-- Fixes the result of a batch whose segments have all landed. -/
def settle (s : Service) (n : Nat) : Service :=
  match s.batches[n]? with
  | none => s
  | some b =>
    if b.remaining = 0 && b.result.isNone then
      let b' := { b with result := some b.slots, waiters := [] }
      wakeAll { s with batches := s.batches.set n b' } b.waiters
    else s

/-- The diagnostic of this handle is the one on display. -/
def isCurrent (s : Service) (shown : Shown) : Bool :=
  match s.session.current with
  | some c => c.handle = shown.handle
  | none => false

/-- Puts an outcome into its slot of a batch, and renders anew if the diagnostic is still on display. -/
def land (s : Service) (batch index : Nat) (o : Outcome) : Service × Option Fault :=
  match s.batches[batch]? with
  | none => (s, none)
  | some b =>
    let slots := b.slots.modify index (·.withContent o.text)
    let s := { s with batches := s.batches.set batch { b with slots, remaining := b.remaining - 1 } }
    if s.isCurrent b.shown then
      let errors := s.session.errors ++ o.error.toList
      let s := { s with session := { s.session with errors, segments := slots } }
      let (s, r) := s.render b.shown.diagnostic slots
      (s.settle batch, match r with
        | .ok _ => none
        | .error f => some f)
    else (s.settle batch, none)

def tell (s : Service) (l : Listener) (o : Outcome) : Service × Option Fault :=
  match l with
  | .nobody => (s, none)
  | .watcher n raises =>
    ({ s with notices := s.notices ++ [.heard s.clock.now n o] }, if raises then some .callback else none)
  | .program => ({ s with received := some o }.push (.wake .program), none)
  | .slot b i => s.land b i o

/-- Completes a job, unless it has its outcome already. -/
def complete (s : Service) (job : Nat) (o : Outcome) : Service × Completion Fault :=
  match s.jobs[job]? with
  | none => (s, .late)
  | some j =>
    if j.done then (s, .late)
    else
      let s := s.modifyJob job fun j => { j with toPromise := j.fix o }
      let (s, f) := s.tell j.listener o
      (s, .first f)

/-- Completes a job as an event of its own: an error of the listener has nobody to go to. -/
def completeAlone (s : Service) (job : Nat) (o : Outcome) : Service :=
  match s.complete job o with
  | (s, .first (some _)) => { s with notices := s.notices ++ [.fault s.clock.now] }
  | (s, _) => s

end Legible.Service
