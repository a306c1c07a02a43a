import Legible.Format.Command
/-!
The search for the formatter. Its answer, "there is none" included, is kept until it is reset.
-/

namespace Legible

/-- A look for an executable: its name, and one directory or, without one, all of the search path. -/
structure Lookup where
  name : Text
  directory : Option Text
deriving DecidableEq, Repr

/-- What looks find, on the machine as it is. -/
abbrev Which := Lookup → Option Text

/-- The search: a fixed executable, if any, the directories before the search path, and the answer. -/
structure Locator where
  fixed : Option Text := none
  directories : List Path := []
  memo : Option (Option Command) := none
deriving DecidableEq, Repr

namespace Locator

/-- The looks of a search, in order: for the formatter, then for its daemon. -/
def plan (l : Locator) : List Lookup :=
  [Command.formatter, Command.daemon].flatMap fun name =>
    l.directories.map (fun d => ⟨name, some d.text⟩) ++ [⟨name, none⟩]

/-- What a look finds; an empty answer is none. -/
def hit? (which : Which) (l : Lookup) : Option Text := (which l).filter fun t => !t.isEmpty

/-- Looks in order up to the first hit, and the looks that this took. -/
def firstHit (which : Which) : List Lookup → Option Text × List Lookup
  | [] => (none, [])
  | l :: r =>
    match hit? which l with
    | some t => (some t, [l])
    | none => ((firstHit which r).1, l :: (firstHit which r).2)

/-- Searches: a fixed executable is taken as it is, without a look. -/
def search (which : Which) (l : Locator) : Option Command × List Lookup :=
  match l.fixed.filter fun t => !t.isEmpty with
  | some t => (some (.ofExecutable t), [])
  | none =>
    let (found, looks) := firstHit which l.plan
    (found.map .ofExecutable, looks)

/-- The formatter, from memory or by a search; the locator remembers it. The looks are listed. -/
def locate (which : Which) (l : Locator) : Option Command × Locator × List Lookup :=
  match l.memo with
  | some found => (found, l, [])
  | none =>
    let (found, looks) := l.search which
    (found, { l with memo := some found }, looks)

/-- Forgets the answer. -/
def reset (l : Locator) : Locator := { l with memo := none }

end Locator

end Legible
