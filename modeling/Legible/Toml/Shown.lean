import Legible.Text.Numeral
import Legible.Text.Quoted
import Legible.Toml.Basic
/-!
Values as they are shown to whoever wrote them: in the notation of the language in which settings are
made by programs.
-/

namespace Legible.Toml

/-- Arguments between brackets. -/
def call (name : Text) (args : List Text) : Text := name ++ "(" ++ Text.join ", " args ++ ")"

/-- The parts of a time of day; seconds and parts of them only as far as they are not zero. -/
def clockArgs (t : TimeOfDay) : List Text :=
  [Text.ofNat t.hour, Text.ofNat t.minute] ++
    (if t.microsecond ≠ 0 then [Text.ofNat t.second, Text.ofNat t.microsecond]
      else if t.second ≠ 0 then [Text.ofNat t.second] else [])

/-- A distance in time: whole days, rounded down, and the seconds that are left. -/
def distanceText (minutes : Int) : Text :=
  let days := minutes / 1440
  let seconds := (minutes % 1440) * 60
  if minutes = 0 then "datetime.timedelta(0)"
  else call "datetime.timedelta" ((if days = 0 then [] else ["days=" ++ Text.ofInt days]) ++
    (if seconds = 0 then [] else ["seconds=" ++ Text.ofInt seconds]))

def zoneArg (z : Zone) : Text :=
  "tzinfo=" ++ call "datetime.timezone" [distanceText z.minutes, Quoted.encode z.name]

mutual

def shown : Toml → Text
  | absent => "None"
  | str t => Quoted.encode t
  | int i => Text.ofInt i
  | float d => d.text
  | bool true => "True"
  | bool false => "False"
  | date d => call "datetime.date" [Text.ofNat d.year, Text.ofNat d.month, Text.ofNat d.day]
  | time t => call "datetime.time" (clockArgs t)
  | moment d t z =>
    call "datetime.datetime" ([Text.ofNat d.year, Text.ofNat d.month, Text.ofNat d.day] ++ clockArgs t
      ++ (z.map zoneArg).toList)
  | arr items => "[" ++ Text.join ", " (shownItems items) ++ "]"
  | table pairs => "\x7b" ++ Text.join ", " (shownPairs pairs) ++ "\x7d"

/-- The items of an array. -/
def shownItems : List Toml → List Text
  | [] => []
  | v :: r => shown v :: shownItems r

/-- The pairs of a table. -/
def shownPairs : List (Text × Toml) → List Text
  | [] => []
  | (k, v) :: r => (Quoted.encode k ++ ": " ++ shown v) :: shownPairs r

end

/-- A value as it stands in a message: a text without quotes. -/
def plain : Toml → Text
  | str t => t
  | v => v.shown

/-- A value counts as true unless it is absent, false, nought or empty. -/
def isTrue : Toml → Bool
  | absent => false
  | str t => !t.isEmpty
  | int i => i ≠ 0
  | float (.finite _ m _) => m ≠ 0
  | bool b => b
  | arr items => !items.isEmpty
  | table pairs => !pairs.isEmpty
  | _ => true

/-- Several values in a row. -/
def rowText (vs : List Toml) : Text :=
  "(" ++ Text.join ", " (shownItems vs) ++ (if vs.length = 1 then ",)" else ")")

mutual

/-- Some number in the value has more digits than are written. -/
def hasTooWide : Toml → Bool
  | int i => Numeral.isTooWide i
  | arr items => anyTooWide items
  | table pairs => anyPairTooWide pairs
  | _ => false

/-- Some item has a number with too many digits. -/
def anyTooWide : List Toml → Bool
  | [] => false
  | v :: r => hasTooWide v || anyTooWide r

/-- Some value of a pair has a number with too many digits. -/
def anyPairTooWide : List (Text × Toml) → Bool
  | [] => false
  | (_, v) :: r => hasTooWide v || anyPairTooWide r

end

/-- The name of a value's type. -/
def typeName : Toml → Text
  | absent => "NoneType"
  | str _ => "str"
  | int _ => "int"
  | float _ => "float"
  | bool _ => "bool"
  | date _ => "date"
  | time _ => "time"
  | moment .. => "datetime"
  | arr _ => "list"
  | table _ => "dict"

end Legible.Toml
