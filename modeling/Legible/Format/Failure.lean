import Legible.Format.Outcome
import Legible.Toml.Shown
/-!
Failures that are made by the name of their kind and values of any type, and what is wrong with values that
a kind does not take.
-/

namespace Legible

namespace FormatFailure

inductive Kind where
  | general
  | notFound
  | notStarted
  | timedOut
  | process
deriving DecidableEq, Repr

namespace Kind

def name : Kind → Text
  | general => "FormatError"
  | notFound => "FormatterNotFound"
  | notStarted => "FormatterStartFailed"
  | timedOut => "FormatterTimedOut"
  | process => "FormatterProcessFailed"

def ofName? (t : Text) : Option Kind :=
  [general, notFound, notStarted, timedOut, process].find? fun k => k.name = t

/-- The message of a kind that has one of its own. -/
def message : Kind → Text
  | notFound => FormatFailure.message .notFound
  | notStarted => FormatFailure.message .notStarted
  | timedOut => FormatFailure.message .timedOut
  | _ => []

end Kind

/-- Why a kind does not take some values. -/
inductive Misuse where
  /-- There are more values than `most`. -/
  | tooMany (kind : Kind) (most given : Nat)
  /-- The values of some keys are missing. -/
  | missing (kind : Kind) (keys : List Text)
  | unknownKey (kind : Kind) (key : Text)
  /-- The kind knows no keys. -/
  | noKeys (kind : Kind)
deriving DecidableEq, Repr

/-- Words in a row, the last one behind an `and`. -/
def enumerate : List Text → Text
  | [] => []
  | [a] => a
  | [a, b] => a ++ " and " ++ b
  | ts => Text.join ", " ts.dropLast ++ ", and " ++ ts.getLastD []

/-- What is wrong, in words; the failure itself counts as the first value. -/
def Misuse.message : Misuse → Text
  | tooMany k most given =>
    let room : Text := if most = 0 then "1 positional argument" else "from 1 to " ++ Text.ofNat (most + 1) ++ " positional arguments"
    k.name ++ ".__init__() takes " ++ room ++ " but " ++ Text.ofNat (given + 1) ++ " were given"
  | missing k keys =>
    k.name ++ ".__init__() missing " ++ Text.ofNat keys.length ++ " required keyword-only argument"
      ++ (if keys.length = 1 then ": " else "s: ") ++ enumerate (keys.map Quoted.encode)
  | unknownKey k key => k.name ++ ".__init__() got an unexpected keyword argument " ++ Quoted.encode key
  | noKeys k => k.name ++ "() takes no keyword arguments"

def processKeys : List Text := ["returncode", "argv", "stderr", "stdout"]

/-- The failure of a kind with values in order. -/
def ofValues (k : Kind) (vs : List Toml) : Except Misuse FormatFailure :=
  match k, vs with
  | .general, [] => .ok (.other [])
  | .general, [v] => .ok (.other v.plain)
  | .general, vs => .ok (.other (Toml.rowText vs))
  | .process, [] => .error (.missing k processKeys)
  | .process, vs => .error (.tooMany k 0 vs.length)
  | k, [] => .ok (.other k.message)
  | _, [v] => .ok (.other v.plain)
  | k, vs => .error (.tooMany k 1 vs.length)

/-- The texts of an array. -/
def textsOf : Toml → List Text
  | .arr vs => vs.map Toml.plain
  | _ => []

/-- The process failure with the values of a table; an output that does not count as true is none. -/
def ofProcessTable (t : Toml.Table) : FormatFailure :=
  let value (key : Text) : Toml := (Association.lookup t key).getD .absent
  let output (key : Text) : Text := if (value key).isTrue then (value key).plain else []
  let status := match value "returncode" with
    | .int n => n
    | _ => 0
  .process ⟨textsOf (value "argv"), status, output "stdout", output "stderr"⟩

/-- The failure of a kind with values by key. -/
def ofTable (k : Kind) (t : Toml.Table) : Except Misuse FormatFailure :=
  let known : List Text := if k = .process then processKeys else ["message"]
  match t.find? fun p => !known.contains p.1 with
  | some (key, _) => .error (if k = .general then .noKeys k else .unknownKey k key)
  | none =>
    match k, t with
    | .process, t =>
      let gone := processKeys.filter fun key => (Association.lookup t key).isNone
      if gone.isEmpty then .ok (ofProcessTable t) else .error (.missing k gone)
    | .general, [] => .ok (.other [])
    | .general, _ => .error (.noKeys k)
    | k, [] => .ok (.other k.message)
    | _, (_, v) :: _ => .ok (.other v.plain)

end FormatFailure

end Legible
