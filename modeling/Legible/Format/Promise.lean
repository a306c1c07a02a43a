import Legible.Format.Outcome
/-!
Outcomes to come. The first completion of a promise fixes its outcome and tells the listener, which may
try to complete the same promise again; every later completion is too late and changes nothing.
-/

namespace Legible

/-- What became of an attempt to complete a promise. -/
inductive Completion (ε : Type) where
  /-- The outcome was there already. -/
  | late
  /-- The outcome is fixed, and the listener may have ended in an error. -/
  | first (fault : Option ε)
deriving DecidableEq, Repr

/-- What a listener does when it is told the outcome. -/
inductive Reaction (ε : Type) where
  /-- It ends, perhaps in an error. -/
  | ends (fault : Option ε)
  /-- It tries to complete the promise itself, and goes on with what became of that. -/
  | completes (o : Outcome) (next : Completion ε → Reaction ε)

/-- Follows a reaction to its end; `attempt` answers its attempts. -/
def Reaction.follow (attempt : σ → Outcome → Completion ε × σ) : Reaction ε → σ → Option ε × σ
  | ends fault, s => (fault, s)
  | completes o next, s => (next (attempt s o).1).follow attempt (attempt s o).2

/-- An outcome to come. -/
structure Promise where
  outcome : Option Outcome := none
  /-- A timer is to complete it. -/
  timed : Bool := false
  /-- What its listener was told. -/
  told : List Outcome := []
deriving DecidableEq, Repr

namespace Promise

def done (p : Promise) : Bool := p.outcome.isSome

/-- Fixes the outcome: the timer is off, and the listener is told. -/
def fix (p : Promise) (o : Outcome) : Promise where
  outcome := some o
  timed := false
  told := p.told ++ [o]

@[simp] theorem done_fix (p : Promise) (o : Outcome) : (p.fix o).done = true := rfl

/-- An attempt to complete a promise, whose outcome is there in any case afterwards. The listener is told
while the outcome is fixed already, so that its own attempts are all late. -/
def attempt (react : Outcome → Reaction ε) (p : Promise) (o : Outcome) :
    Completion ε × { q : Promise // q.done = true } :=
  if h : p.done = true then (.late, ⟨p, h⟩)
  else
    let (fault, q) := (react o).follow (fun q o => attempt react q.1 o) ⟨p.fix o, done_fix p o⟩
    (.first fault, q)
termination_by if p.done then 0 else 1
decreasing_by simp [q.2, h]

/-- Completes a promise, unless its outcome is there already. -/
def complete (react : Outcome → Reaction ε) (p : Promise) (o : Outcome) : Completion ε × Promise :=
  let (c, q) := p.attempt react o
  (c, q.1)

end Promise

end Legible
