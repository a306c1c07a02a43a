import Legible.Text.Numeral
import Legible.Text.Quoted
import Legible.Toml.Basic
/-!
Numbers, dates and times as they are written in TOML.
-/

namespace Legible.Toml

/-- The value of an ASCII digit of a base; letters count from ten on. -/
def digit? (base : Nat) (c : CodePoint) : Option Nat := c.hexValue?.filter (· < base)

/-- The values of the digits of a base, with single underscores between two of them. -/
def digitsIn? (base : Nat) : Text → Option (List Nat)
  | [] => none
  | [c] => (digit? base c).map ([·])
  | c :: d :: r =>
    if d = '_' then
      match digit? base c, digitsIn? base r with
      | some v, some vs => some (v :: vs)
      | _, _ => none
    else
      match digit? base c, digitsIn? base (d :: r) with
      | some v, some vs => some (v :: vs)
      | _, _ => none

/-- The number whose digits in a base these are. -/
def valueIn (base : Nat) (ds : List Nat) : Nat := ds.foldl (fun n d => n * base + d) 0

/-- Cuts a sign off. -/
def cutSign (t : Text) : Option CodePoint × Text :=
  match t with
  | c :: r => if c = '+' || c = '-' then (some c, r) else (none, t)
  | [] => (none, [])

/-- An ASCII digit or the underscore between two. -/
def isDigitPart (c : CodePoint) : Bool := c.isAsciiDigit || c = '_'

/-- The exponent behind a fraction, or zero where the text ends. -/
def exponent? (t : Text) : Option Int :=
  match t with
  | [] => some 0
  | c :: r =>
    if c = 'e' || c = 'E' then
      let (sign, body) := cutSign r
      (digitsIn? 10 body).map fun ds =>
        let e : Int := Numeral.value ds
        if sign = some '-' then -e else e
    else none

/-- A number in base ten without its sign: whole, or with a point, an exponent or both. No zero leads
other digits, and digits stand on either side of the point. A whole one has only so many digits as numerals
may have. -/
def decimal? (negative : Bool) (t : Text) : Option Toml :=
  match digitsIn? 10 (t.takeWhile isDigitPart) with
  | none => none
  | some whole =>
    if 1 < whole.length && whole.head? = some 0 then none
    else
      let fraction (part : List Nat) (rest : Text) : Option Toml :=
        (exponent? rest).map fun e =>
          .float (.ofDecimal negative (Numeral.value (whole ++ part)) (e - part.length))
      match t.dropWhile isDigitPart with
      | [] =>
        if Numeral.maxDigits < whole.length then none
        else
          let n : Int := Numeral.value whole
          some (.int (if negative then -n else n))
      | c :: r =>
        if c = '.' then
          match digitsIn? 10 (r.takeWhile isDigitPart) with
          | none => none
          | some part => fraction part (r.dropWhile isDigitPart)
        else fraction [] (c :: r)

/-- A number: in base ten with or without a sign, one of the words for what is no finite number, or
without a sign in base two, eight or sixteen. -/
def number? (token : Text) : Option Toml :=
  let (sign, body) := cutSign token
  let negative := sign = some '-'
  let inBase (base : Nat) : Option Toml :=
    if sign.isSome then none else (digitsIn? base (body.drop 2)).map fun ds => .int (valueIn base ds)
  if body = "inf" then some (.float (.infinite negative))
  else if body = "nan" then some (.float .nan)
  else if body.startsWith "0b" then inBase 2
  else if body.startsWith "0o" then inBase 8
  else if body.startsWith "0x" then inBase 16
  else decimal? negative body

/-! ## Dates and times -/

/-- The value of so many ASCII digits at the start, and the rest. -/
def fixedDigits? (count : Nat) (t : Text) : Option (Nat × Text) :=
  let ds := t.take count
  if ds.length = count && ds.all CodePoint.isAsciiDigit then
    some (Numeral.value (ds.map (·.val - 48)), t.drop count)
  else none

/-- The rest behind a character. -/
def after? (c : Char) (t : Text) : Option Text :=
  match t with
  | d :: r => if d = c then some r else none
  | [] => none

/-- A date at the start: four, two and two digits. -/
def dateAt? (t : Text) : Option (Nat × Nat × Nat × Text) := do
  let (y, t) ← fixedDigits? 4 t
  let (m, t) ← fixedDigits? 2 (← after? '-' t)
  let (d, t) ← fixedDigits? 2 (← after? '-' t)
  return (y, m, d, t)

/-- The parts of a second at the start, of which six digits count. -/
def microsecondsAt (t : Text) : Nat × Text :=
  match after? '.' t with
  | none => (0, t)
  | some r =>
    let ds := r.takeWhile CodePoint.isAsciiDigit
    if ds.isEmpty then (0, t)
    else
      let six := (ds ++ Text.repeated '0' 6).take 6
      (Numeral.value (six.map (·.val - 48)), r.drop ds.length)

/-- A time at the start: two digits for the hour and two for the minute, perhaps two for the second, and
perhaps parts of the second. -/
def timeAt? (t : Text) : Option (TimeOfDay × Text) := do
  let (h, t) ← fixedDigits? 2 t
  let (m, t) ← fixedDigits? 2 (← after? ':' t)
  match after? ':' t with
  | none => return (← TimeOfDay.make? h m 0 0, t)
  | some r =>
    let (s, r) ← fixedDigits? 2 r
    let (micro, r) := microsecondsAt r
    return (← TimeOfDay.make? h m s micro, r)

/-- A zone that is all of the text: the letter Z, or a sign, hours and minutes. -/
def zone? (t : Text) : Option Zone :=
  match t with
  | [] => none
  | c :: r =>
    if r.isEmpty && (c = 'Z' || c = 'z') then some ⟨0, "UTC"⟩
    else if c = '+' || c = '-' then do
      let (h, rest) ← fixedDigits? 2 r
      let (m, rest) ← fixedDigits? 2 (← after? ':' rest)
      if rest.isEmpty && h < 24 && m < 60 then
        let minutes : Int := h * 60 + m
        some ⟨if c = '-' then -minutes else minutes, t⟩
      else none
    else none

/-- A date, a time, or both with a zone or without one. -/
def moment? (t : Text) : Option Toml :=
  match dateAt? t with
  | some (y, m, d, rest) =>
    match Date.make? y m d with
    | none => none
    | some day =>
      match rest with
      | [] => some (.date day)
      | c :: r =>
        if c = 'T' || c = 't' || c = ' ' then
          match timeAt? r with
          | some (clock, []) => some (.moment day clock none)
          | some (clock, rest) => (zone? rest).map fun z => .moment day clock (some z)
          | none => none
        else none
  | none =>
    match timeAt? t with
    | some (clock, []) => some (.time clock)
    | _ => none

end Legible.Toml
