import Legible.Json.Basic
import Legible.Text.Numeral
import Legible.Text.Quoted
/-!
Reading JSON, with the place and kind of the first fault. `NaN` and the infinities are numbers here, and
of several members with one name the last value counts.
-/

namespace Legible.Json

/-- What is wrong with a JSON text. -/
inductive Fault where
  | value
  | name
  | colon
  | comma
  | unterminated
  | control
  | escape
  | unicodeEscape
  | extraData
  | byteOrderMark
deriving DecidableEq, Repr

/-- A value that holds others. -/
inductive Nest where
  | array
  | object
deriving DecidableEq, Repr

/-- What is said of an array or object that lies too deep. -/
def Nest.message (n : Nest) : Text :=
  let what : Text := match n with
    | array => "array"
    | object => "object"
  "maximum recursion depth exceeded while decoding a JSON " ++ what ++ " from a unicode string"

/-- Why a text is no JSON. -/
inductive Error where
  /-- The text is ill-formed at a place, counted in characters from the start. -/
  | malformed (fault : Fault) (line column position : Nat)
  /-- A number has more digits than are read. -/
  | number (error : NumeralError)
  /-- Arrays and objects are nested deeper than they are read. -/
  | tooDeep (nest : Nest)
deriving Repr

/-- A fault that leaves so many characters unread, or another reason to stop. -/
inductive Stop where
  | fault (fault : Fault) (unread : Nat)
  | number (error : NumeralError)
  | tooDeep (nest : Nest)

/-- White space between the tokens. -/
def isSpace (c : CodePoint) : Bool := c = ' ' || c = '\t' || c = '\n' || c = '\r'

def skip (t : Text) : Text := t.dropWhile isSpace

/-- The character of a one-letter escape. -/
def unescape? (c : CodePoint) : Option CodePoint :=
  if c = '"' || c = '\\' || c = '/' then some c
  else if c = 'b' then some (.ofNat 8)
  else if c = 'f' then some (.ofNat 12)
  else if c = 'n' then some '\n'
  else if c = 'r' then some '\r'
  else if c = 't' then some '\t'
  else none

/-- The number of four hexadecimal digits at the start, which must not end the text. -/
def hexUnit? : Text → Option (Nat × Text)
  | a :: b :: c :: d :: r =>
    if r.isEmpty then none
    else match a.hexValue?, b.hexValue?, c.hexValue?, d.hexValue? with
      | some a, some b, some c, some d => some (((a * 16 + b) * 16 + c) * 16 + d, r)
      | _, _, _, _ => none
  | _ => none

/-- Joins the unit of an escape with the low half that may follow it; `r` is the text behind the escape.
An ill-formed second escape is a fault only where seven characters or more are left. -/
def joinUnits (unit : Nat) (r : Text) : Except Stop (CodePoint × Text) :=
  if 0xD800 ≤ unit && unit < 0xDC00 && 6 < r.length then
    match r with
    | b :: u :: s =>
      if b = '\\' && u = 'u' then
        match hexUnit? s with
        | none => .error (.fault .unicodeEscape (s.length + 1))
        | some (low, s) =>
          if 0xDC00 ≤ low && low < 0xE000 then
            .ok (.ofNat (0x10000 + (unit - 0xD800) * 1024 + (low - 0xDC00)), s)
          else .ok (.ofNat unit, r)
      else .ok (.ofNat unit, r)
    | _ => .ok (.ofNat unit, r)
  else .ok (.ofNat unit, r)

/-- Reads a string up to its closing quote; `read` holds what is read, in reverse, and `opened` characters
were unread at the opening quote. -/
def string (opened : Nat) : Nat → Text → Text → Except Stop (Text × Text)
  | 0, _, _ => .error (.fault .unterminated opened)
  | _ + 1, _, [] => .error (.fault .unterminated opened)
  | fuel + 1, read, c :: r =>
    if c = '"' then .ok (read.reverse, r)
    else if c.val < 32 then .error (.fault .control (r.length + 1))
    else if c = '\\' then
      match r with
      | [] => .error (.fault .unterminated opened)
      | e :: s =>
        if e = 'u' then
          match hexUnit? s with
          | none => .error (.fault .unicodeEscape (s.length + 1))
          | some (unit, s) =>
            match joinUnits unit s with
            | .error e => .error e
            | .ok (c, s) => string opened fuel (c :: read) s
        else match unescape? e with
          | none => .error (.fault .escape (r.length + 1))
          | some c => string opened fuel (c :: read) s
    else string opened fuel (c :: read) r

/-- The ASCII digits at the start, and the rest. -/
def digits (t : Text) : Text × Text := t.span CodePoint.isAsciiDigit

/-- The value of ASCII digits. -/
def digitsValue (t : Text) : Nat := Numeral.value (t.map (·.val - 48))

/-- The digits behind a point, where there are any. -/
def fraction (t : Text) : Text × Text :=
  match t with
  | c :: r => if c = '.' && !(digits r).1.isEmpty then digits r else ([], t)
  | [] => ([], t)

/-- The power of ten behind an `e`, where there is one. -/
def exponent? (t : Text) : Option (Int × Text) :=
  match t with
  | e :: r =>
    if e = 'e' || e = 'E' then
      let (negative, r) := match r with
        | s :: q => if s = '-' then (true, q) else if s = '+' then (false, q) else (false, r)
        | [] => (false, r)
      let (ds, rest) := digits r
      if ds.isEmpty then none
      else some (if negative then -(digitsValue ds : Int) else digitsValue ds, rest)
    else none
  | [] => none

/-- Reads a number; `whole` is its text, from the sign on. -/
def number (whole : Text) : Except Stop (Json × Text) :=
  let (negative, body) := match whole with
    | c :: r => if c = '-' then (true, r) else (false, whole)
    | [] => (false, whole)
  let (ds, rest) := match body with
    | c :: r => if c = '0' then ([c], r) else digits body
    | [] => ([], body)
  if ds.isEmpty then .error (.fault .value whole.length)
  else
    let (fs, rest) := fraction rest
    match exponent? rest with
    | some (e, rest) =>
      .ok (.float (.ofDecimal negative (digitsValue (ds ++ fs)) (e - fs.length)), rest)
    | none =>
      if fs.isEmpty then
        if Numeral.maxDigits < ds.length then .error (.number (.tooLong ds.length))
        else .ok (.int (if negative then -(digitsValue ds : Int) else digitsValue ds), rest)
      else .ok (.float (.ofDecimal negative (digitsValue (ds ++ fs)) (-(fs.length : Int))), rest)

/-- The words that stand for a value. -/
def words : List (Text × Json) :=
  [("null", .null), ("true", .bool true), ("false", .bool false), ("NaN", .float .nan),
   ("Infinity", .float (.infinite false)), ("-Infinity", .float (.infinite true))]

/-- The value of a word at the start. -/
def word? (t : Text) : Option (Json × Text) :=
  words.findSome? fun (w, v) => (Text.dropStart? w t).map (v, ·)

/-- How many arrays and objects may lie inside each other. -/
def maxDepth : Nat := 990

mutual

/-- Reads the value at the start; `room` more arrays and objects may lie inside each other. -/
def value (room : Nat) : Nat → Text → Except Stop (Json × Text)
  | 0, t => .error (.fault .value t.length)
  | _ + 1, [] => .error (.fault .value 0)
  | fuel + 1, c :: r =>
    if c = '"' then
      match string (r.length + 1) (r.length + 1) [] r with
      | .error e => .error e
      | .ok (s, r) => .ok (.str s, r)
    else if c = '{' then
      if room = 0 then .error (.tooDeep .object)
      else match skip r with
      | [] => .error (.fault .name 0)
      | d :: r => if d = '}' then .ok (.obj [], r) else members (room - 1) fuel [] (d :: r)
    else if c = '[' then
      if room = 0 then .error (.tooDeep .array)
      else match skip r with
      | [] => .error (.fault .value 0)
      | d :: r => if d = ']' then .ok (.arr [], r) else items (room - 1) fuel [] (d :: r)
    else match word? (c :: r) with
      | some found => .ok found
      | none => number (c :: r)

/-- Reads the items of an array; those before are in reverse. -/
def items (room : Nat) : Nat → List Json → Text → Except Stop (Json × Text)
  | 0, _, t => .error (.fault .value t.length)
  | fuel + 1, before, t =>
    match value room fuel t with
    | .error e => .error e
    | .ok (v, r) =>
      match skip r with
      | [] => .error (.fault .comma 0)
      | c :: r =>
        if c = ']' then .ok (.arr (v :: before).reverse, r)
        else if c = ',' then items room fuel (v :: before) (skip r)
        else .error (.fault .comma (r.length + 1))

/-- Reads the members of an object after those before. -/
def members (room : Nat) : Nat → List (Text × Json) → Text → Except Stop (Json × Text)
  | 0, _, t => .error (.fault .name t.length)
  | _ + 1, _, [] => .error (.fault .name 0)
  | fuel + 1, before, q :: r =>
    if q ≠ '"' then .error (.fault .name (r.length + 1))
    else match string (r.length + 1) (r.length + 1) [] r with
      | .error e => .error e
      | .ok (name, r) =>
        match skip r with
        | [] => .error (.fault .colon 0)
        | c :: r =>
          if c ≠ ':' then .error (.fault .colon (r.length + 1))
          else match value room fuel (skip r) with
            | .error e => .error e
            | .ok (v, r) =>
              let known := Association.assign before name v
              match skip r with
              | [] => .error (.fault .comma 0)
              | c :: r =>
                if c = '}' then .ok (.obj known, r)
                else if c = ',' then members room fuel known (skip r)
                else .error (.fault .comma (r.length + 1))

end

/-- The place of a fault that leaves so many characters of the text unread. -/
def place (t : Text) (fault : Fault) (unread : Nat) : Error :=
  let before := t.take (t.length - unread)
  let line := before.countP CodePoint.isNewline
  let column := (before.reverse.takeWhile fun c => !c.isNewline).length
  .malformed fault (line + 1) (column + 1) before.length

/-- The value that a text stands for. -/
def parse (t : Text) : Except Error Json :=
  let result : Except Stop (Json × Text) := match t with
    | c :: _ =>
      if c.val = 0xFEFF then .error (.fault .byteOrderMark t.length)
      else value maxDepth (2 * t.length + 2) (skip t)
    | [] => .error (.fault .value 0)
  match result with
  | .error (.fault f unread) => .error (place t f unread)
  | .error (.number e) => .error (.number e)
  | .error (.tooDeep n) => .error (.tooDeep n)
  | .ok (v, r) =>
    match skip r with
    | [] => .ok v
    | r => .error (place t .extraData r.length)

/-- The fault in words. -/
def Fault.message : Fault → Text
  | value => "Expecting value"
  | name => "Expecting property name enclosed in double quotes"
  | colon => "Expecting ':' delimiter"
  | comma => "Expecting ',' delimiter"
  | unterminated => "Unterminated string starting at"
  | control => "Invalid control character at"
  | escape => "Invalid \\escape"
  | unicodeEscape => "Invalid \\uXXXX escape"
  | extraData => "Extra data"
  | byteOrderMark => "Unexpected UTF-8 BOM (decode using utf-8-sig)"

/-- The place of a fault in words. -/
def placeText (line column position : Nat) : Text :=
  "line " ++ Text.ofNat line ++ " column " ++ Text.ofNat column ++ " (char " ++ Text.ofNat position
    ++ ")"

end Legible.Json
