import Legible.Text.Blank
import Legible.Text.Quoted
/-!
Whole numbers in the decimal digits of any script.
-/

namespace Legible

namespace CodePoint

/-- The zeros of the scripts that have decimal digits; the nine digits after each follow it. -/
def zeros : List Nat :=
  [0x30, 0x660, 0x6F0, 0x7C0, 0x966, 0x9E6, 0xA66, 0xAE6, 0xB66, 0xBE6, 0xC66, 0xCE6, 0xD66, 0xDE6,
   0xE50, 0xED0, 0xF20, 0x1040, 0x1090, 0x17E0, 0x1810, 0x1946, 0x19D0, 0x1A80, 0x1A90, 0x1B50,
   0x1BB0, 0x1C40, 0x1C50, 0xA620, 0xA8D0, 0xA900, 0xA9D0, 0xA9F0, 0xAA50, 0xABF0, 0xFF10, 0x104A0,
   0x10D30, 0x11066, 0x110F0, 0x11136, 0x111D0, 0x112F0, 0x11450, 0x114D0, 0x11650, 0x116C0,
   0x11730, 0x118E0, 0x11950, 0x11C50, 0x11D50, 0x11DA0, 0x16A60, 0x16AC0, 0x16B50, 0x1D7CE,
   0x1D7D8, 0x1D7E2, 0x1D7EC, 0x1D7F6, 0x1E140, 0x1E2F0, 0x1E950, 0x1FBF0]

/-- The value of a decimal digit. -/
def decimalValue? (c : CodePoint) : Option Nat :=
  (zeros.find? fun z => z ≤ c.val && c.val < z + 10).map (c.val - ·)

/-- The digits that do not take part in decimal numerals: superscripts, subscripts, circled ones and
the like, as first and last of each run. -/
def otherDigits : List (Nat × Nat) :=
  [(0xB2, 0xB3), (0xB9, 0xB9), (0x1369, 0x1371), (0x19DA, 0x19DA), (0x2070, 0x2070),
   (0x2074, 0x2079), (0x2080, 0x2089), (0x2460, 0x2468), (0x2474, 0x247C), (0x2488, 0x2490),
   (0x24EA, 0x24EA), (0x24F5, 0x24FD), (0x24FF, 0x24FF), (0x2776, 0x277E), (0x2780, 0x2788),
   (0x278A, 0x2792), (0x10A40, 0x10A43), (0x10E60, 0x10E68), (0x11052, 0x1105A),
   (0x1F100, 0x1F10A)]

/-- A digit in the widest sense, superscripts and circled digits included. -/
def isDigit (c : CodePoint) : Bool :=
  c.decimalValue?.isSome || otherDigits.any fun (a, b) => a ≤ c.val && c.val ≤ b

end CodePoint

/-- Why a text is no whole number. -/
inductive NumeralError where
  /-- It is not a sign, digits and single underscores between the digits. -/
  | malformed (text : Text)
  /-- It has more digits than are read. -/
  | tooLong (digits : Nat)
  /-- A number has more digits than are written. -/
  | tooWide
deriving DecidableEq, Repr

namespace Numeral

/-- The most digits that a number may have. -/
def maxDigits : Nat := 4300

/-- The values of the digits at the start, where single underscores may stand between two of them, and the
rest. An underscore that stands elsewhere leaves none. -/
def leading? : Text → Option (List Nat × Text)
  | [] => none
  | [c] => c.decimalValue?.map fun v => ([v], [])
  | c :: d :: r =>
    match c.decimalValue? with
    | none => none
    | some v =>
      if d = '_' then (leading? r).map fun (vs, rest) => (v :: vs, rest)
      else if d.decimalValue?.isSome then (leading? (d :: r)).map fun (vs, rest) => (v :: vs, rest)
      else some ([v], d :: r)

/-- The values of the digits of a text that has nothing else. -/
def digits? (t : Text) : Option (List Nat) :=
  match leading? t with
  | some (vs, []) => some vs
  | _ => none

/-- The number whose digits these are, the first one counting most. -/
def value (ds : List Nat) : Nat := ds.foldl (fun n d => 10 * n + d) 0

/-- White space that may stand around a number; the separators from FS to US may not. -/
def isMargin (c : CodePoint) : Bool := c.isBlank && !(28 ≤ c.val && c.val < 32)

/-- Reads a whole number: white space around it, one sign, digits of any script. Too many digits are an error
whatever stands behind them. -/
def parse (t : Text) : Except NumeralError Int :=
  let (negative, body) := match t.dropWhile isMargin with
    | [] => (false, [])
    | c :: r => if c = '-' then (true, r) else if c = '+' then (false, r) else (false, c :: r)
  match leading? body with
  | none => .error (.malformed t)
  | some (ds, rest) =>
    if maxDigits < ds.length then .error (.tooLong ds.length)
    else if rest.all isMargin then .ok (if negative then -(value ds : Int) else value ds)
    else .error (.malformed t)

/-- The number has more digits than are written. -/
def isTooWide (n : Int) : Bool := Nat.pow 10 maxDigits ≤ n.natAbs

/-- The number in writing, unless it has too many digits. -/
def shown (n : Int) : Except NumeralError Text :=
  if isTooWide n then .error .tooWide else .ok (Text.ofInt n)

theorem shown_eq_error_iff {n : Int} {e : NumeralError} :
    shown n = .error e ↔ e = .tooWide ∧ isTooWide n = true := by
  rw [shown]
  split
  · rename_i h
    exact ⟨fun he => ⟨(Except.error.inj he).symm, h⟩, fun he => he.1 ▸ rfl⟩
  · rename_i h
    exact iff_of_false nofun fun he => h he.2

theorem shown_eq_ok_iff {n : Int} {t : Text} : shown n = .ok t ↔ isTooWide n = false ∧ t = Text.ofInt n := by
  rw [shown]
  split
  · rename_i h
    exact iff_of_false nofun fun ht => by simp [h] at ht
  · rename_i h
    exact ⟨fun ht => ⟨by simpa using h, (Except.ok.inj ht).symm⟩, fun ht => ht.2 ▸ rfl⟩

end Numeral

/-- What is said of a number with too many digits; how many it has is known if it was read. -/
def NumeralError.limitText (digits : Option Nat) : Text :=
  let found : Text := match digits with
    | some n => ": value has " ++ Text.ofNat n ++ " digits"
    | none => []
  "Exceeds the limit (" ++ Text.ofNat Numeral.maxDigits ++ " digits) for integer string conversion" ++ found
    ++ "; use sys.set_int_max_str_digits() to increase the limit"

/-- What is said of a text that is no whole number, which is shown as far as two hundred characters go, or of
a number with too many digits. -/
def NumeralError.message : NumeralError → Text
  | malformed t => "invalid literal for int() with base 10: " ++ (Quoted.encode t).take 200
  | tooLong n => limitText (some n)
  | tooWide => limitText none

end Legible
