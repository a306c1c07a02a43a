import Legible.Service.Delivery
/-!
Requests to the formatter: blocking, and on the clock. A type in the cache needs no run, and neither does
one for which there is no formatter.
-/

namespace Legible.Service

/-- How long a type from the cache lets wait for it, in milliseconds. -/
def hitDelay : Nat := 100

/-- The command line under the settings, if a run under them can be started. A daemon is not told the
width. -/
def argv (s : Service) (c : Command) : Except Fault (List Text) :=
  if !c.isDaemon && Numeral.isTooWide s.config.printWidth then .error (.width .tooWide)
  else if (Double.seconds? s.config.timeoutMs).isNone then .error .deadline
  else .ok (c.argv s.config.printWidth s.config.formatterArgs)

/-- Runs the formatter once more. -/
def run (s : Service) (r : Run) : Reply × Service :=
  (s.formatter s.runs.length r, { s with runs := s.runs ++ [r] })

/-- What a run that ended left behind. -/
def resultOf (argv : List Text) (r : Reply) : ProcessResult := ⟨argv, r.status, r.stdout, r.stderr⟩

/-- Warns of a formatter that cannot be started. -/
def warnStart (s : Service) (argv : List Text) (reason : Text) : Service :=
  s.warn ("Cannot start formatter " ++ argv.headD [] ++ ": " ++ reason)

/-- The outcome of a process result; a failure is warned of, and a success enters the cache. -/
def conclude (s : Service) (content : Text) (r : ProcessResult) : Outcome × Service :=
  let o := Outcome.ofResult content r
  match o.error with
  | none => (o, { s with cache := s.cache.set content o.text })
  | some e => (o, s.warn e)

/-- Runs the formatter on a type and waits for it. -/
def runBlocking (s : Service) (content : Text) (argv : List Text) : Outcome × Service :=
  let (reply, s) := s.run ⟨argv, Wrapping.wrap content, some s.config.timeoutMs⟩
  match reply.startFault with
  | some reason => (.failed content .notStarted, s.warnStart argv reason)
  | none =>
    if reply.hangs then (.failed content .timedOut, s)
    else s.conclude content (resultOf argv reply)

/-- Formats a type and waits for it. -/
def formatBlocking (s : Service) (content : Text) : Except Fault Outcome × Service :=
  match s.cache.get? content with
  | some t => (.ok ⟨t, none⟩, s)
  | none =>
    match s.locate with
    | (none, s) => (.ok (.failed content .notFound), s)
    | (some c, s) => match s.argv c with
      | .error f => (.error f, s)
      | .ok argv =>
        let (o, s) := s.runBlocking content argv
        (.ok o, s)

def addJob (s : Service) (j : Job) : Service := { s with jobs := s.jobs ++ [j] }

/-- Starts a job that runs the formatter on a type. -/
def startJob (s : Service) (content : Text) (listener : Listener) (argv : List Text) : Service :=
  let n := s.jobs.length
  let job : Job :=
    { content, listener, argv, wrapped := Wrapping.wrap content
      deadline := some (s.clock.now + s.config.timeoutMs), timed := true, task := .ready }
  ((s.addJob job).push (.resume n)).after s.config.timeoutMs (.expire n)

/-- Starts to format a type on the clock. The outcome comes later, in any case; the answer is the number
of the job if the formatter is to run. -/
def request (s : Service) (content : Text) (listener : Listener) : Except Fault (Option Nat) × Service :=
  let n := s.jobs.length
  match s.cache.get? content with
  | some t => (.ok none, (s.addJob { content, listener }).after hitDelay (.deliver n ⟨t, none⟩))
  | none =>
    match s.locate with
    | (none, s) =>
      (.ok none, (s.addJob { content, listener }).push (.deliver n (.failed content .notFound)))
    | (some c, s) => match s.argv c with
      | .error f => (.error f, s)
      | .ok argv => (.ok (some n), s.startJob content listener argv)

/-- The task of a job comes to its end. -/
def endTask (s : Service) (n : Nat) (e : Ending) : Service :=
  s.modifyJob n fun j => { j with task := .ended e }

/-- Completes a job as the last act of its task: an error of the listener ends the task. -/
def completeInTask (s : Service) (n : Nat) (o : Outcome) : Service :=
  match s.complete n o with
  | (s, .first (some _)) => s.endTask n .raised
  | (s, _) => s.endTask n .normal

/-- The formatter of a job has finished: unless the job has its outcome already, it is concluded. -/
def finishTask (s : Service) (n : Nat) (j : Job) (r : Reply) : Service :=
  if j.done then s.endTask n .normal
  else
    let (o, s) := s.conclude j.content (resultOf j.argv r)
    s.completeInTask n o

/-- The task of a job goes on. -/
def resume (s : Service) (n : Nat) : Service :=
  match s.jobs[n]? with
  | none => s
  | some j => match j.task with
    | .ready =>
      let (reply, s) := s.run ⟨j.argv, j.wrapped, none⟩
      match reply.startFault with
      | some reason => (s.warnStart j.argv reason).completeInTask n (.failed j.content .notStarted)
      | none =>
        if reply.delay = 0 then s.finishTask n j reply
        else (s.modifyJob n fun j => { j with task := .running reply }).after reply.delay (.finish n)
    | .finished reply => s.finishTask n j reply
    | .stopping started =>
      { (s.endTask n .cancelled) with cancelled := s.cancelled + (if started then 1 else 0) }
    | _ => s

/-- The formatter of a job has finished: its task stands in the queue. -/
def finish (s : Service) (n : Nat) : Service :=
  match s.jobs[n]? with
  | some { task := .running reply, .. } =>
    (s.modifyJob n fun j => { j with task := .finished reply }).push (.resume n)
  | _ => s

/-- Tells the task of a job to end. -/
def stop (s : Service) (n : Nat) (t : Task) : Service :=
  match t with
  | .ready => s.modifyJob n fun j => { j with task := .stopping false }
  | .running _ => (s.modifyJob n fun j => { j with task := .stopping true }).push (.resume n)
  | .finished _ => s.modifyJob n fun j => { j with task := .stopping true }
  | _ => s

/-- The deadline of a job is over: if it has no outcome yet, its task is told to end and the job fails. -/
def expire (s : Service) (n : Nat) : Service :=
  match s.jobs[n]? with
  | none => s
  | some j =>
    if j.done then s else (s.stop n j.task).completeAlone n (.failed j.content .timedOut)

end Legible.Service
