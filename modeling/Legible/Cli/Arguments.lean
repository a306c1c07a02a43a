import Legible.Cli.Option
import Legible.Text.Likeness
/-!
The arguments of a task cut into the options that they mention and the rest.
-/

namespace Legible.Cli

/-- What is wrong with arguments. -/
inductive Mistake where
  /-- There is no such option; some names may be close. -/
  | unknownOption (name : Text) (close : List Text)
  /-- An option stands at the end without its value. -/
  | valueMissing (name : Text)
  /-- An option that takes no value has one attached. -/
  | valueAttached (name : Text)
  /-- The value of an option is not one that it takes. -/
  | badValue (option : Opt) (reason : Text)
  /-- There are more arguments than the task takes. -/
  | surplus (arguments : List Text)
  /-- There is no such task; some words may be close. -/
  | unknownVerb (word : Text) (close : List Text)
  /-- No part of a task is named. -/
  | verbMissing
deriving DecidableEq, Repr

namespace Mistake

/-- What may have been meant. -/
def suggestion : List Text → Text
  | [] => []
  | [c] => " Did you mean " ++ Quoted.encode c ++ "?"
  | cs => " (Did you mean one of: " ++ Text.join ", " (cs.map Quoted.encode) ++ "?)"

/-- The mistake in words. -/
def message : Mistake → Text
  | unknownOption name close => "No such option " ++ Quoted.encode name ++ "." ++ suggestion close
  | valueMissing name => "Option " ++ Quoted.encode name ++ " requires an argument."
  | valueAttached name => "Option " ++ Quoted.encode name ++ " does not take a value."
  | badValue o reason => "Invalid value for " ++ o.label ++ ": " ++ reason
  | surplus [a] => "Got unexpected extra argument (" ++ a ++ ")"
  | surplus as => "Got unexpected extra arguments (" ++ Text.join " " as ++ ")"
  | unknownVerb word close => "No such command " ++ Quoted.encode word ++ "." ++ suggestion close
  | verbMissing => "Missing command."

/-- The usage of the task is shown above the message. -/
def showsUsage : Mistake → Bool
  | valueMissing _ => false
  | valueAttached _ => false
  | _ => true

end Mistake

/-- What is said by naming an option. -/
inductive Given where
  | yes
  /-- One of its contrary names was used. -/
  | no
  | value (t : Text)
deriving DecidableEq, Repr

/-- An option that is mentioned. -/
structure Mention where
  option : Opt
  given : Given
deriving DecidableEq, Repr

/-- Arguments cut into options and the rest. -/
structure Arguments where
  mentions : List Mention := []
  rest : List Text := []
deriving DecidableEq, Repr

namespace Arguments

/-- The arguments with a mention in front. -/
def mention (m : Mention) (a : Arguments) : Arguments := { a with mentions := m :: a.mentions }

/-- The arguments with one more that is no option in front. -/
def word (t : Text) (a : Arguments) : Arguments := { a with rest := t :: a.rest }

/-- The mark behind which nothing is an option. -/
def endOfOptions : Text := "--"

/-- An argument that starts with a dash and goes on. -/
def looksLikeOption (t : Text) : Bool := t.startsWith "-" && 1 < t.length

/-- A name of two dashes. -/
def isLong (t : Text) : Bool := t.startsWith endOfOptions

/-- The names of options and what naming them says. -/
def names (os : List Opt) : List (Text × Mention) :=
  os.flatMap fun o =>
    (o.form.names.map fun n => (n, ⟨o, .yes⟩)) ++ (o.form.contrary.map fun n => (n, ⟨o, .no⟩))

def longNames (os : List Opt) : List (Text × Mention) := (names os).filter fun p => isLong p.1

/-- A name and the value attached to it with an equals sign. -/
def attachment (t : Text) : Text × Option Text :=
  match List.span (fun (c : CodePoint) => c ≠ '=') t with
  | (name, _ :: v) => (name, some v)
  | (name, []) => (name, none)

/-- The options of a bundle of letters behind one dash. -/
def bundle (os : List Opt) : Text → Except Mistake (List Mention)
  | [] => .ok []
  | c :: r =>
    match Association.lookup (names os) ['-', c] with
    | none => .error (.unknownOption ['-', c] [])
    | some m => (bundle os r).map (m :: ·)

/-- Cuts arguments. A task that is divided into parts takes no option behind the first other argument. -/
def cut (os : List Opt) (divided : Bool) : List Text → Except Mistake Arguments
  | [] => .ok {}
  | t :: r =>
    if t = endOfOptions then .ok { rest := r }
    else if !looksLikeOption t then
      if divided then .ok { rest := t :: r } else (cut os divided r).map (word t)
    else
      let (name, attached) := attachment t
      match Association.lookup (longNames os) name with
      | none =>
        if isLong t then .error (.unknownOption name (Text.closest name ((longNames os).map (·.1))))
        else do
          let ms ← bundle os (t.drop 1)
          let a ← cut os divided r
          return { a with mentions := ms ++ a.mentions }
      | some m =>
        if m.option.form.value.isNone then
          if attached.isSome then .error (.valueAttached name) else (cut os divided r).map (mention m)
        else match attached, r with
          | some v, r => (cut os divided r).map (mention ⟨m.option, .value v⟩)
          | none, v :: r => (cut os divided r).map (mention ⟨m.option, .value v⟩)
          | none, [] => .error (.valueMissing name)

/-- The options in the order in which they are mentioned first. -/
def mentioned (a : Arguments) : List Opt :=
  a.mentions.foldl (fun os m => if os.contains m.option then os else os ++ [m.option]) []

/-- What the mentions of an option say. -/
def given (a : Arguments) (o : Opt) : List Given :=
  (a.mentions.filter fun m => m.option = o).map (·.given)

end Arguments

end Legible.Cli
