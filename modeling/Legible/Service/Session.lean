import Legible.Service.Client
/-!
The diagnostic on display: shown at once as it is, then again with every segment that has been formatted.
-/

namespace Legible.Service

/-- The places of the segments that are code. -/
def codePlaces (segments : List Segment) : List Nat :=
  (segments.zipIdx.filter (·.1.isCode)).map (·.2)

/-- Asks for the segments at these places, up to a fault. -/
def requestSlots (s : Service) (batch : Nat) (segments : List Segment) :
    List Nat → Except Fault Unit × Service
  | [] => (.ok (), s)
  | i :: r => match segments[i]? with
    | none => requestSlots s batch segments r
    | some seg => match s.request seg.content (.slot batch i) with
      | (.error f, s) => (.error f, s)
      | (.ok _, s) => requestSlots s batch segments r

/-- Starts to format the code among the segments of a diagnostic; without code the batch has its result
at once. -/
def startBatch (s : Service) (segments : List Segment) (shown : Shown) : Except Fault Nat × Service :=
  let n := s.batches.length
  let places := codePlaces segments
  let batch : Batch :=
    { shown, slots := segments, remaining := places.length
      result := if places.isEmpty then some segments else none }
  let (asked, s) := requestSlots { s with batches := s.batches ++ [batch] } n segments places
  (asked.map fun _ => n, s)

/-- Shows a diagnostic that has a message, and starts to format its code if so asked; unless told, the
settings decide. -/
def display (s : Service) (shown : Shown) (format : Option Bool := none) :
    Service × Except Fault (Option View) :=
  let message := shown.diagnostic.message
  if message.isEmpty then (s, .ok none)
  else
    let segments := Message.segments message
    let s := { s with
      session := { current := some shown, segments, view := s.session.view, pending := none, errors := [] } }
    match s.render shown.diagnostic segments with
    | (s, .error f) => (s, .error f)
    | (s, .ok view) =>
      if format.getD s.config.formatOnOpen && s.onClock then
        match s.startBatch segments shown with
        | (.error f, s) => (s, .error f)
        | (.ok n, s) => ({ s with session := { s.session with pending := some n } }, .ok (some view))
      else (s, .ok (some view))

/-- Shows nothing any more. -/
def close (s : Service) : Service := { s with session := {} }

/-- Closes what is shown, or shows a diagnostic if nothing is. -/
def toggle (s : Service) (shown : Shown) : Service × Except Fault (Option View) :=
  if s.session.current.isSome then (s.close, .ok none) else s.display shown

/-- Whoever shows a diagnostic and waits has an answer, or waits for a batch. -/
inductive Awaited where
  | now (result : Except Fault (Option View))
  | batch (number : Nat)

/-- Waits for a batch, if it has no result yet. -/
def awaitBatch (s : Service) (n : Nat) (w : Waiter) : Bool × Service :=
  match s.batches[n]? with
  | none => (false, s)
  | some b =>
    if b.result.isSome then (false, s)
    else (true, { s with batches := s.batches.set n { b with waiters := b.waiters ++ [w] } })

/-- Shows a diagnostic, formatted in any case, and waits for the batch that is then pending. -/
def displayAndAwait (s : Service) (shown : Shown) (w : Waiter) : Awaited × Service :=
  match s.display shown (some true) with
  | (s, .error f) => (.now (.error f), s)
  | (s, .ok view) =>
    match s.session.pending with
    | none => (.now (.ok view), s)
    | some n =>
      match s.awaitBatch n w with
      | (true, s) => (.batch n, s)
      | (false, s) => (.now (.ok s.session.view), s)

/-- Starts a task that shows a diagnostic and waits. -/
def spawn (s : Service) (shown : Shown) : Service :=
  { s with waits := s.waits ++ [Wait.ready shown] }.push (.wake (.task s.waits.length))

end Legible.Service
