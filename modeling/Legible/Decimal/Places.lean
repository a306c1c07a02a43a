import Legible.Decimal.Double
/-!
Doubles with a chosen number of digits: so many places behind the point, or so many digits in all with a
power of ten. The exact value is rounded once; a half goes to the even neighbour.
-/

namespace Legible.Double

/-- The size of a finite double as a fraction. -/
def fraction (mantissa : Nat) (exponent : Int) : Nat × Nat :=
  (mantissa * twoTo exponent.toNat, twoTo (-exponent).toNat)

/-- The nearest whole number to `num / den` in units of `10 ^ unit`. -/
def inUnits (num den : Nat) (unit : Int) : Nat :=
  if 0 ≤ unit then roundDiv num (den * tenTo unit.toNat) else roundDiv (num * tenTo (-unit).toNat) den

/-- Digits with a point so many places from their end; `point` asks for one even without places. -/
def pointed (digits places : Nat) (point : Bool) : Text :=
  let ds := Text.ofNat digits
  let ds := Text.repeated '0' (places + 1 - ds.length) ++ ds
  let whole := ds.length - places
  ds.take whole ++ (if 0 < places || point then Text.ofString "." else []) ++ ds.drop whole

/-- So many places behind the point. -/
def fixedText (num den places : Nat) (point : Bool) : Text :=
  pointed (inUnits num den (-(places : Int))) places point

/-- `places + 1` digits of `num / den` and the exponent of the first one. -/
def leading (num den places : Nat) : Nat × Int :=
  if num = 0 then (0, 0)
  else
    let e := decimalExponent num den - 1
    let digits := inUnits num den (e - places)
    if digitCount digits = places + 2 then (digits / 10, e + 1) else (digits, e)

/-- One digit before the point, so many places behind it, and an exponent of at least two digits. -/
def exponentText (digits places : Nat) (exponent : Int) (point : Bool) : Text :=
  let size := Text.ofNat exponent.natAbs
  pointed digits places point ++ (if exponent < 0 then "e-" else "e+")
    ++ Text.repeated '0' (2 - size.length) ++ size

/-- Takes zeros off the end, at most so many. -/
def withoutZeros (digits : Nat) : Nat → Nat × Nat
  | 0 => (digits, 0)
  | places + 1 => if digits % 10 = 0 then withoutZeros (digits / 10) places else (digits, places + 1)

/-- So many digits, at least one, positional where the exponent is from -4 up to their number; no zeros at
the end of the places unless they are kept. -/
def generalText (num den count : Nat) (keep : Bool) : Text :=
  let places := count - 1
  let (digits, e) := leading num den places
  let positional := -4 ≤ e && e < (places + 1 : Nat)
  let behind := if positional then (places - e).toNat else places
  let (digits, behind) := if keep then (digits, behind) else withoutZeros digits behind
  if positional then pointed digits behind keep else exponentText digits behind e keep

/-- The ways to write a double with a chosen number of digits. -/
inductive Layout where
  /-- So many places behind the point. -/
  | fixed
  /-- With a power of ten. -/
  | scientific
  /-- The shorter of both. -/
  | general
deriving DecidableEq, Repr

/-- A double with so many places, or digits in the general layout; `keep` writes the point and the zeros
behind it in any case. -/
def laidOut (layout : Layout) (precision : Nat) (keep : Bool) : Double → Text
  | nan => "nan"
  | infinite negative => if negative then "-inf" else "inf"
  | finite negative m e =>
    let (num, den) := fraction m e
    let body := match layout with
      | .fixed => fixedText num den precision keep
      | .scientific =>
        let (digits, x) := leading num den precision
        exponentText digits precision x keep
      | .general => generalText num den precision keep
    if negative then "-" ++ body else body

/-- The whole number towards zero. -/
def truncate? : Double → Option Int
  | finite negative m e =>
    let (num, den) := fraction m e
    let size : Int := (num / den : Nat)
    some (if negative then -size else size)
  | _ => none

end Legible.Double
