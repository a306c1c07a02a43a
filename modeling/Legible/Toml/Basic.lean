import Legible.Association
import Legible.Decimal.Double
/-!
TOML values: texts, numbers, dates and times, arrays and tables. A table keeps its keys in order.
-/

namespace Legible

/-- A day of the calendar. -/
structure Date where
  year : Nat
  month : Nat
  day : Nat
deriving DecidableEq, Repr

structure TimeOfDay where
  hour : Nat
  minute : Nat
  second : Nat
  microsecond : Nat
deriving DecidableEq, Repr

/-- A distance from universal time in minutes, with its name. -/
structure Zone where
  minutes : Int
  name : Text
deriving DecidableEq, Repr

/-- A TOML value. The value `absent` stands for a key without a value, which only tables made by a
program have. -/
inductive Toml where
  | absent
  | str (value : Text)
  | int (value : Int)
  | float (value : Double)
  | bool (value : Bool)
  | date (value : Date)
  | time (value : TimeOfDay)
  | moment (date : Date) (time : TimeOfDay) (zone : Option Zone)
  | arr (items : List Toml)
  | table (pairs : List (Text × Toml))

namespace Toml

instance : Inhabited Toml := ⟨absent⟩

/-- The keys and values of a table. -/
abbrev Table := List (Text × Toml)

def isAbsent : Toml → Bool
  | absent => true
  | _ => false

/-- The value of a key, where it has one. -/
def get? (t : Table) (key : Text) : Option Toml :=
  match Association.lookup t key with
  | some absent => none
  | v => v

/-- The table of a key; a key without one has the empty table. -/
def subtable (t : Table) (key : Text) : Table :=
  match Association.lookup t key with
  | some (table pairs) => pairs
  | _ => []

end Toml

namespace Date

/-- Has a day more in February. -/
def isLeap (year : Nat) : Bool := year % 4 = 0 && (year % 100 ≠ 0 || year % 400 = 0)

/-- The number of days of a month. -/
def monthLength (year month : Nat) : Nat :=
  if month = 2 then if isLeap year then 29 else 28
  else if month = 4 || month = 6 || month = 9 || month = 11 then 30 else 31

/-- The date, if the calendar has it. -/
def make? (year month day : Nat) : Option Date :=
  if 1 ≤ year && 1 ≤ month && month ≤ 12 && 1 ≤ day && day ≤ monthLength year month then
    some ⟨year, month, day⟩
  else none

end Date

/-- The time of day, if a clock shows it. -/
def TimeOfDay.make? (hour minute second microsecond : Nat) : Option TimeOfDay :=
  if hour < 24 && minute < 60 && second < 60 then some ⟨hour, minute, second, microsecond⟩ else none

end Legible
