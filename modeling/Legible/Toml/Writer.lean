import Legible.Text.Quoted
import Legible.Toml.Basic
/-!
Writing TOML: the plain pairs of a table first, then its arrays of tables and its tables, each in order.
An empty line stands above a table if its own table has anything before it, above an array of tables if its
table names a value before it, and between two elements if the first one holds anything. Keys without a value
are left out.
-/

namespace Legible.Toml

/-- A character inside a string. -/
def escapeChar (c : CodePoint) : Text :=
  if c = '"' then "\\\""
  else if c = '\\' then "\\\\"
  else if c = '\n' then "\\n"
  else if c = '\r' then "\\r"
  else if c = '\t' then "\\t"
  else if c.val = 8 then "\\b"
  else if c.val = 12 then "\\f"
  else if c.val < 32 || c.val = 127 then "\\u" ++ Text.hex 4 c.val
  else [c]

/-- A string in quotes. -/
def quoted (t : Text) : Text := "\"" ++ t.flatMap escapeChar ++ "\""

/-- May stand in a key without quotes. -/
def isBareKeyChar (c : CodePoint) : Bool := c.isLetter || c.isAsciiDigit || c = '-' || c = '_'

/-- A key, in quotes if need be. -/
def keyText (k : Text) : Text := if !k.isEmpty && k.all isBareKeyChar then k else quoted k

/-- At least so many digits. -/
def padded (width n : Nat) : Text :=
  let ds := Text.ofNat n
  Text.repeated '0' (width - ds.length) ++ ds

def dateText (d : Date) : Text := padded 4 d.year ++ "-" ++ padded 2 d.month ++ "-" ++ padded 2 d.day

def timeText (t : TimeOfDay) : Text :=
  padded 2 t.hour ++ ":" ++ padded 2 t.minute ++ ":" ++ padded 2 t.second
    ++ (if t.microsecond = 0 then [] else (Text.ofString ".") ++ padded 6 t.microsecond)

def zoneText (z : Zone) : Text :=
  let m := z.minutes.natAbs
  let sign : Text := if z.minutes < 0 then "-" else "+"
  sign ++ padded 2 (m / 60) ++ ":" ++ padded 2 (m % 60)

def isTable : Toml → Bool
  | table _ => true
  | _ => false

mutual

/-- A value on one line. Of the pairs of a table those whose values are tables come last; a blank follows
the commas of a table that is an item of an array. -/
def inlineText (item : Bool) : Toml → Text
  | absent => []
  | str t => quoted t
  | int i => Text.ofInt i
  | float d => d.text
  | bool true => "true"
  | bool false => "false"
  | date d => dateText d
  | time t => timeText t
  | moment d t z => dateText d ++ "T" ++ timeText t ++ (z.map zoneText).getD []
  | arr items => "[" ++ Text.join ", " (itemTexts items) ++ "]"
  | table pairs =>
    let texts := pairTexts false pairs ++ pairTexts true pairs
    "\x7b" ++ Text.join (if item then ", " else ",") texts ++ "\x7d"

/-- The items of an array. -/
def itemTexts : List Toml → List Text
  | [] => []
  | v :: r => if isAbsent v then itemTexts r else inlineText true v :: itemTexts r

/-- The pairs of a table whose values are tables, or those whose values are none. -/
def pairTexts (tables : Bool) : List (Text × Toml) → List Text
  | [] => []
  | (k, v) :: r =>
    if isAbsent v || isTable v != tables then pairTexts tables r
    else (keyText k ++ " = " ++ inlineText false v) :: pairTexts tables r

end

/-- Is an array of tables, with at least one. -/
def isTableArray : Toml → Bool
  | arr items => !items.isEmpty && (items.filter fun v => !isAbsent v).all isTable
      && items.any isTable
  | _ => false

/-- The lines of the pairs of a table that are neither tables nor arrays of tables. -/
def plainText (pairs : Table) : Text :=
  (pairs.filter fun (_, v) => !isAbsent v && !isTable v && !isTableArray v).flatMap fun (k, v) =>
    keyText k ++ " = " ++ inlineText false v ++ "\n"

/-- Holds tables only, and at least one. -/
def holdsTablesOnly (pairs : Table) : Bool :=
  let set := pairs.filter fun (_, v) => !isAbsent v
  !set.isEmpty && set.all fun (_, v) => isTable v || isTableArray v

/-- An empty line, if so asked. -/
def gap (wanted : Bool) : Text := if wanted then Text.newline else []

/-- Has a value that is no table. -/
def isPlain (v : Toml) : Bool := !isAbsent v && !isTable v

/-- Some key has a value that is no table. -/
def holdsPlain (pairs : Table) : Bool := pairs.any fun (_, v) => isPlain v

mutual

/-- The lines of a table or an array of tables under a name; `apart` asks for an empty line above. -/
def valueBlock (name : Text) (apart : Bool) : Toml → Text
  | table pairs =>
    let own : Text := if holdsTablesOnly pairs then [] else "[" ++ name ++ "]\n"
    gap apart ++ own ++ plainText pairs ++ arrayBlocks (name ++ ".") false pairs
      ++ tableBlocks (name ++ ".") (holdsPlain pairs) pairs
  | arr items => elementBlocks name apart items
  | _ => []

/-- The lines of the arrays of tables among pairs; `begun` tells that a value that is no table stands
before these pairs. -/
def arrayBlocks (above : Text) (begun : Bool) : List (Text × Toml) → Text
  | [] => []
  | (k, v) :: r =>
    (if isTableArray v then valueBlock (above ++ keyText k) begun v else [])
      ++ arrayBlocks above (begun || isPlain v) r

/-- The lines of the tables among pairs; `begun` tells that something stands before the next one. -/
def tableBlocks (above : Text) (begun : Bool) : List (Text × Toml) → Text
  | [] => []
  | (k, v) :: r =>
    (if isTable v then valueBlock (above ++ keyText k) begun v else [])
      ++ tableBlocks above (begun || isTable v) r

/-- The lines of the elements of an array of tables; an empty line follows an element that has a pair. -/
def elementBlocks (name : Text) (apart : Bool) : List Toml → Text
  | [] => []
  | table pairs :: r =>
    gap apart ++ "[[" ++ name ++ "]]\n" ++ plainText pairs ++ arrayBlocks (name ++ ".") false pairs
      ++ tableBlocks (name ++ ".") (holdsPlain pairs) pairs
      ++ elementBlocks name (pairs.any fun (_, v) => !isAbsent v) r
  | _ :: r => elementBlocks name apart r

end

/-- The document of a table. -/
def render (pairs : Table) : Text :=
  plainText pairs ++ arrayBlocks [] false pairs ++ tableBlocks [] (holdsPlain pairs) pairs

end Legible.Toml
