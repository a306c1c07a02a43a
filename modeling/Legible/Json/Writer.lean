import Legible.Json.Basic
import Legible.Text.Quoted
/-!
Writing JSON in ASCII, on one line or with one item a line.
-/

namespace Legible.Json

/-- The escape of a UTF-16 unit. -/
def unitEscape (n : Nat) : Text := "\\u" ++ Text.hex 4 n

/-- A character inside a string: ASCII that can be shown as it is, all else escaped. -/
def escapeChar (c : CodePoint) : Text :=
  if c = '"' then "\\\""
  else if c = '\\' then "\\\\"
  else if c = '\n' then "\\n"
  else if c = '\r' then "\\r"
  else if c = '\t' then "\\t"
  else if c.val = 8 then "\\b"
  else if c.val = 12 then "\\f"
  else if 32 ≤ c.val && c.val < 127 then [c]
  else if c.val < 0x10000 then unitEscape c.val
  else
    let n := c.val - 0x10000
    unitEscape (0xD800 + n / 1024) ++ unitEscape (0xDC00 + n % 1024)

/-- A string in quotes. -/
def quoted (t : Text) : Text := "\"" ++ t.flatMap escapeChar ++ "\""

/-- A number in JSON; the values that are no numbers have words. -/
def floatText : Double → Text
  | .nan => "NaN"
  | .infinite false => "Infinity"
  | .infinite true => "-Infinity"
  | d => d.text

/-- A value that has no parts. -/
def scalarText : Json → Text
  | null => "null"
  | bool true => "true"
  | bool false => "false"
  | int i => Text.ofInt i
  | float d => floatText d
  | str t => quoted t
  | arr _ => "[]"
  | obj _ => "\x7b\x7d"

mutual

/-- A value on one line. -/
def compact : Json → Text
  | arr items => "[" ++ Text.join ", " (compactItems items) ++ "]"
  | obj members => "\x7b" ++ Text.join ", " (compactMembers members) ++ "\x7d"
  | null => "null"
  | bool b => scalarText (bool b)
  | int i => Text.ofInt i
  | float d => floatText d
  | str t => quoted t

/-- The items of an array, each on one line. -/
def compactItems : List Json → List Text
  | [] => []
  | v :: r => compact v :: compactItems r

/-- The members of an object, each on one line. -/
def compactMembers : List (Text × Json) → List Text
  | [] => []
  | (n, v) :: r => (quoted n ++ ": " ++ compact v) :: compactMembers r

end

/-- A line break and the indentation of a depth. -/
def breakTo (depth : Nat) : Text := '\n' :: Text.repeated ' ' (2 * depth)

mutual

/-- A value with one item a line, at a depth. -/
def pretty (depth : Nat) : Json → Text
  | arr [] => "[]"
  | arr (v :: r) =>
    "[" ++ breakTo (depth + 1) ++ Text.join ("," ++ breakTo (depth + 1)) (prettyItems (depth + 1) (v :: r))
      ++ breakTo depth ++ "]"
  | obj [] => "\x7b\x7d"
  | obj (m :: r) =>
    "\x7b" ++ breakTo (depth + 1) ++ Text.join ("," ++ breakTo (depth + 1)) (prettyMembers (depth + 1) (m :: r))
      ++ breakTo depth ++ "\x7d"
  | null => "null"
  | bool b => scalarText (bool b)
  | int i => Text.ofInt i
  | float d => floatText d
  | str t => quoted t

/-- The items of an array. -/
def prettyItems (depth : Nat) : List Json → List Text
  | [] => []
  | v :: r => pretty depth v :: prettyItems depth r

/-- The members of an object. -/
def prettyMembers (depth : Nat) : List (Text × Json) → List Text
  | [] => []
  | (n, v) :: r => (quoted n ++ ": " ++ pretty depth v) :: prettyMembers depth r

end

end Legible.Json
