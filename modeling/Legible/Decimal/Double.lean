import Legible.Text.Basic
/-!
Binary floating-point numbers of 53 bits, in exact arithmetic: the nearest one to a decimal fraction,
and the shortest decimal text that reads back.
-/

namespace Legible

/-- A double. A finite one is `mantissa * 2 ^ exponent`; `Double.round` gives the mantissa 53 bits, or
fewer with the least exponent. -/
inductive Double where
  | nan
  | infinite (negative : Bool)
  | finite (negative : Bool) (mantissa : Nat) (exponent : Int)
deriving DecidableEq, Repr

namespace Double

/-- The least exponent of a finite double. -/
def minExponent : Int := -1074

/-- The greatest exponent of a finite double. -/
def maxExponent : Int := 971

def twoTo (n : Nat) : Nat := Nat.pow 2 n

def tenTo (n : Nat) : Nat := Nat.pow 10 n

/-- The nearest whole number to `num / den`; a half goes to the even neighbour. -/
def roundDiv (num den : Nat) : Nat :=
  let q := num / den
  let r := num % den
  if 2 * r < den then q else if den < 2 * r then q + 1 else q + q % 2

/-- The nearest whole number to `num / (den * 2 ^ e)`. -/
def scaled (num den : Nat) (e : Int) : Nat :=
  if 0 ≤ e then roundDiv num (den * twoTo e.toNat) else roundDiv (num * twoTo (-e).toNat) den

/-- The nearest double to `num / den`, which is not negative. -/
def round (negative : Bool) (num den : Nat) : Double :=
  if num = 0 then .finite negative 0 minExponent
  else
    let bits : Int := (Nat.log2 num : Int) - Nat.log2 den
    let wide := bits - 52
    let floor := if 0 ≤ wide then num / (den * twoTo wide.toNat) else num * twoTo (-wide).toNat / den
    let e := max (if floor < twoTo 52 then wide - 1 else wide) minExponent
    let m := scaled num den e
    let (m, e) := if m = twoTo 53 then (twoTo 52, e + 1) else (m, e)
    if maxExponent < e then .infinite negative else .finite negative m e

/-- The number of decimal digits. -/
def digitCount (n : Nat) : Nat := (Nat.toDigits 10 n).length

/-- The nearest double to `digits * 10 ^ exponent`. -/
def ofDecimal (negative : Bool) (digits : Nat) (exponent : Int) : Double :=
  let size := exponent + digitCount digits
  if digits = 0 then .finite negative 0 minExponent
  else if 310 < size then .infinite negative
  else if size < -330 then .finite negative 0 minExponent
  else if 0 ≤ exponent then round negative (digits * tenTo exponent.toNat) 1
  else round negative digits (tenTo (-exponent).toNat)

/-- The nearest double to `num / den`. -/
def ofRatio (num : Int) (den : Nat) : Double := round (num < 0) num.natAbs den

/-- The nearest double to a quotient. -/
def divide (d : Double) (n : Nat) : Double :=
  match d with
  | finite negative m e => round negative (m * twoTo e.toNat) (n * twoTo (-e).toNat)
  | d => d

/-- Milliseconds in seconds: the double nearest to their number, divided. There is none if their number is
beyond all doubles. -/
def seconds? (milliseconds : Nat) : Option Double :=
  match ofRatio milliseconds 1 with
  | infinite _ => none
  | d => some (d.divide 1000)

/-- The exponent `k` for which `num / den` lies from `10 ^ (k - 1)` up to `10 ^ k`. -/
def decimalExponent (num den : Nat) : Int :=
  if den ≤ num then digitCount (num / den) else 1 - (digitCount (den / num) : Int)

/-- The digits nearest to `value / den` among those on the grid of `10 ^ unit` that lie between `low`
and `high`, both over `den`; the ends count where `closed` says so. Of two neighbours at one distance
the even one is taken. -/
def onGrid? (value low high den : Nat) (closed : Bool) (unit : Int) : Option Nat :=
  let (p, q) := if 0 ≤ unit then (tenTo unit.toNat, 1) else (1, tenTo (-unit).toNat)
  let inside (d : Nat) : Bool :=
    let x := d * p * den
    if closed then low * q ≤ x && x ≤ high * q else low * q < x && x < high * q
  let below := value * q / (p * den)
  let above := below + 1
  match inside below, inside above with
  | true, true =>
    let twice := 2 * (value * q)
    let middle := (below + above) * p * den
    if twice < middle || (twice = middle && below % 2 = 0) then some below else some above
  | true, false => some below
  | false, true => some above
  | false, false => none

/-- The first grid, from coarse to fine, that has digits for the value. -/
def firstGrid (value low high den : Nat) (closed : Bool) (k : Int) (tried : Nat) :
    Nat → Nat × Int
  | 0 => (0, k)
  | fuel + 1 =>
    let unit := k - (tried + 1 : Nat)
    match onGrid? value low high den closed unit with
    | some d => (d, unit)
    | none => firstGrid value low high den closed k (tried + 1) fuel

/-- The fewest digits, with their power of ten, that read back as `mantissa * 2 ^ exponent`. -/
def shortest (mantissa : Nat) (exponent : Int) : Nat × Int :=
  let up := twoTo exponent.toNat
  let den := 4 * twoTo (-exponent).toNat
  let value := 4 * mantissa * up
  let step := if mantissa = twoTo 52 && minExponent < exponent then 1 else 2
  let low := (4 * mantissa - step) * up
  let high := (4 * mantissa + 2) * up
  firstGrid value low high den (mantissa % 2 = 0) (decimalExponent value den) 0 17

/-- Removes the zeros at the end of a numeral and counts them in the power of ten. -/
def dropZeros (digits : Nat) (unit : Int) : Nat → Nat × Int
  | 0 => (digits, unit)
  | fuel + 1 =>
    if digits % 10 = 0 && digits ≠ 0 then dropZeros (digits / 10) (unit + 1) fuel else (digits, unit)

/-- Positional from `10 ^ -4` up to `10 ^ 16`, with at least one digit behind the point; else one digit
before the point and a signed exponent of at least two digits. -/
def digitsText (digits : Nat) (unit : Int) : Text :=
  let ds := Text.ofNat digits
  let point := unit + ds.length
  if -4 < point && point ≤ 16 then
    if point ≤ 0 then "0." ++ Text.repeated '0' (-point).toNat ++ ds
    else
      let whole := point.toNat
      if ds.length ≤ whole then ds ++ Text.repeated '0' (whole - ds.length) ++ ".0"
      else ds.take whole ++ "." ++ ds.drop whole
  else
    let e := point - 1
    let body := match ds with
      | c :: d :: r => c :: '.' :: d :: r
      | _ => ds
    let size := Text.ofNat e.natAbs
    body ++ (if e < 0 then "e-" else "e+") ++ Text.repeated '0' (2 - size.length) ++ size

/-- The shortest text that reads back. -/
def text : Double → Text
  | nan => "nan"
  | infinite false => "inf"
  | infinite true => "-inf"
  | finite negative m e =>
    let body : Text :=
      if m = 0 then "0.0"
      else
        let (d, u) := shortest m e
        let (d, u) := dropZeros d u 20
        digitsText d u
    if negative then "-" ++ body else body

end Double

end Legible
