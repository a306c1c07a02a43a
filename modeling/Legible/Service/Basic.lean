import Legible.Config.Basic
import Legible.Files.Environment
import Legible.Format.Cache
import Legible.Format.Locator
import Legible.Format.Promise
import Legible.Render.Markdown
/-!
The state of the formatting service: cache, locator, formatter, the jobs on their way and the diagnostic
on display, on one clock. What is to happen stands in a queue, or in a list of timers while its time has
not come; an empty queue lets the clock go on to the next timer.
-/

namespace Legible

/-- The locator that the settings ask for; the directory of the editor's packages is searched last. -/
def Locator.ofConfig (c : Config) (e : Environment) : Except PlaceFault Locator :=
  e.packageBin.map fun p => { fixed := c.formatterCmd, directories := c.searchPaths ++ [p] }

/-- A run of the formatter: its command line, its input and, of a blocking run, the deadline in
milliseconds. -/
structure Run where
  argv : List Text
  stdin : Text
  deadline : Option Nat
deriving DecidableEq, Repr

/-- What a run of the formatter comes to. -/
structure Reply where
  /-- It cannot be started, and why. -/
  startFault : Option Text := none
  /-- A blocking run does not finish in time. -/
  hangs : Bool := false
  /-- How many milliseconds a run on the clock takes. -/
  delay : Nat := 0
  status : Int := 0
  stdout : Text := []
  stderr : Text := []
deriving DecidableEq, Repr

/-- The formatter: what run number `n` comes to. -/
abbrev Formatter := Nat → Run → Reply

/-- A diagnostic with a handle, which tells it from others of the same content. -/
structure Shown where
  handle : Nat
  diagnostic : Diagnostic
deriving DecidableEq, Repr

/-- Who waits: the program, or a task that it has started. -/
inductive Waiter where
  | program
  | task (number : Nat)
deriving DecidableEq, Repr

/-- Who hears of the outcome of a request. -/
inductive Listener where
  | nobody
  /-- A callback of the program, which may end in an error. -/
  | watcher (number : Nat) (raises : Bool)
  /-- The program, which waits for the outcome. -/
  | program
  /-- A segment of a diagnostic that is formatted as a batch. -/
  | slot (batch index : Nat)
deriving DecidableEq, Repr

/-- How a task came to its end. -/
inductive Ending where
  | normal
  | cancelled
  | raised
deriving DecidableEq, Repr

/-- How far the task that runs the formatter for a job is. -/
inductive Task where
  /-- There is none: the outcome needs no run. -/
  | none
  /-- It stands in the queue for its first step. -/
  | ready
  /-- The formatter is running. -/
  | running (reply : Reply)
  /-- The formatter has finished and the task stands in the queue. -/
  | finished (reply : Reply)
  /-- It is to end, and stands in the queue; the formatter may have been started. -/
  | stopping (started : Bool)
  | ended (ending : Ending)
deriving DecidableEq, Repr

/-- A request on its way. -/
structure Job extends Promise where
  content : Text
  listener : Listener
  wrapped : Text := []
  argv : List Text := []
  deadline : Option Nat := none
  task : Task := .none
deriving DecidableEq, Repr

/-- Something that is to happen. -/
inductive Event where
  /-- A job's task goes on. -/
  | resume (job : Nat)
  /-- A job's formatter has finished. -/
  | finish (job : Nat)
  /-- A job's deadline is over. -/
  | expire (job : Nat)
  /-- A job is completed without a run. -/
  | deliver (job : Nat) (outcome : Outcome)
  /-- The program has slept enough. -/
  | rested
  /-- Someone who waited goes on. -/
  | wake (waiter : Waiter)
deriving DecidableEq, Repr

/-- An event and its time. -/
structure Timer where
  due : Nat
  event : Event
deriving DecidableEq, Repr

/-- The clock in milliseconds, what happens next, and what happens later, in order of time. -/
structure Clock where
  now : Nat := 0
  queue : List Event := []
  timers : List Timer := []
deriving DecidableEq, Repr

namespace Clock

/-- Puts an event at the end of the queue. -/
def push (c : Clock) (e : Event) : Clock := { c with queue := c.queue ++ [e] }

/-- Puts a timer behind all that are not later. -/
def insert (t : Timer) : List Timer → List Timer
  | [] => [t]
  | u :: r => if u.due ≤ t.due then u :: insert t r else t :: u :: r

/-- Lets an event happen after so many milliseconds. -/
def after (c : Clock) (delay : Nat) (e : Event) : Clock :=
  { c with timers := insert ⟨c.now + delay, e⟩ c.timers }

/-- Goes on to a time: the timers that are due enter the queue. -/
def advance (c : Clock) (time : Nat) : Clock where
  now := time
  queue := c.queue ++ (c.timers.takeWhile (·.due ≤ time)).map (·.event)
  timers := c.timers.dropWhile (·.due ≤ time)

/-- The next event and the clock behind it. -/
def next? (c : Clock) : Option (Event × Clock) :=
  match c.queue with
  | e :: r => some (e, { c with queue := r })
  | [] => match c.timers with
    | [] => none
    | t :: r => some (t.event, { (advance { c with timers := r } t.due) with now := t.due })

end Clock

/-- The segments of a diagnostic that are formatted together. -/
structure Batch where
  shown : Shown
  slots : List Segment
  remaining : Nat
  result : Option (List Segment) := none
  waiters : List Waiter := []
deriving DecidableEq, Repr

/-- What can go wrong in a step of the program. -/
inductive Fault where
  /-- There is no clock to run on. -/
  | noClock
  /-- A callback ended in an error. -/
  | callback
  /-- The program failed to take a rendering. -/
  | render
  /-- The width that the settings ask for has too many digits. -/
  | width (error : NumeralError)
  /-- The deadline that the settings ask for is beyond all clocks. -/
  | deadline
  /-- The code of a diagnostic has too many digits. -/
  | code (error : NumeralError)
deriving DecidableEq, Repr

/-- The fault in words. -/
def Fault.message : Fault → Text
  | noClock => "no running event loop"
  | callback => "callback failed"
  | render => "render failed"
  | width e => e.message
  | deadline => "int too large to convert to float"
  | code e => e.message

/-- The diagnostic on display. -/
structure Session where
  current : Option Shown := none
  segments : List Segment := []
  view : Option View := none
  pending : Option Nat := none
  errors : List Text := []
deriving DecidableEq, Repr

/-- A task that shows a diagnostic and waits for its segments. -/
inductive Wait where
  | ready (shown : Shown)
  | waiting
  | ended (result : Except Fault (Option View))

/-- What the program was told. -/
inductive Notice where
  | heard (time watcher : Nat) (outcome : Outcome)
  /-- A callback ended in an error that nobody took. -/
  | fault (time : Nat)
deriving DecidableEq, Repr

structure Service where
  config : Config
  cache : Cache
  locator : Locator
  which : Which
  formatter : Formatter
  /-- There is a clock to run on. -/
  onClock : Bool := true
  clock : Clock := {}
  jobs : List Job := []
  batches : List Batch := []
  waits : List Wait := []
  session : Session := {}
  /-- The runs so far. -/
  runs : List Run := []
  /-- How many runs were cancelled. -/
  cancelled : Nat := 0
  /-- The renderings that the program took, with their times. -/
  renderings : List (Nat × View) := []
  /-- The program takes renderings, and fails to take those of some numbers. -/
  onRender : Option (Nat → Bool) := none
  notices : List Notice := []
  /-- The outcome that the program waited for. -/
  received : Option Outcome := none
  /-- The program goes on. -/
  awake : Bool := false
  /-- What there is to warn of. -/
  warnings : List Text := []

namespace Service

/-- A service with these settings, without entries, jobs or a diagnostic on display. -/
def create (config : Config) (locator : Locator) (which : Which) (formatter : Formatter) : Service where
  config := config
  cache := { enabled := config.cacheEnabled, maxEntries := config.cacheMaxEntries }
  locator := locator
  which := which
  formatter := formatter

/-- Forgets what was formatted and where the formatter is. -/
def reset (s : Service) : Service := { s with cache := s.cache.clear, locator := s.locator.reset }

def modifyJob (s : Service) (n : Nat) (f : Job → Job) : Service := { s with jobs := s.jobs.modify n f }

/-- Puts an event at the end of the queue. -/
def push (s : Service) (e : Event) : Service := { s with clock := s.clock.push e }

/-- Lets an event happen after so many milliseconds. -/
def after (s : Service) (delay : Nat) (e : Event) : Service :=
  { s with clock := s.clock.after delay e }

def warn (s : Service) (t : Text) : Service := { s with warnings := s.warnings ++ [t] }

/-- Finds the formatter; the locator remembers it. -/
def locate (s : Service) : Option Command × Service :=
  let (found, locator, _) := s.locator.locate s.which
  (found, { s with locator := locator })

end Service

end Legible
