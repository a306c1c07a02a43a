import Legible.Toml.Shown
/-!
Colours of text and of the ground behind it: by name, by their place on a palette, or mixed.
-/

namespace Legible

/-- The colours that a terminal has names for. -/
inductive Color where
  | black
  | red
  | green
  | yellow
  | blue
  | magenta
  | cyan
  | white
deriving DecidableEq, Repr

namespace Color

/-- All colours, in the order of their numbers. -/
def all : List Color := [black, red, green, yellow, blue, magenta, cyan, white]

/-- The place of a colour among all. -/
def number (c : Color) : Nat := all.idxOf c

/-- The name of a colour. -/
def name : Color → Text
  | black => "black"
  | red => "red"
  | green => "green"
  | yellow => "yellow"
  | blue => "blue"
  | magenta => "magenta"
  | cyan => "cyan"
  | white => "white"

/-- The colour of a name. -/
def ofName? (t : Text) : Option Color := all.find? fun c => c.name = t

end Color

/-- A colour of text or of the ground behind it. -/
inductive Ink where
  /-- A colour with a name, as it is or bright. -/
  | named (color : Color) (bright : Bool)
  /-- The one that the terminal has by itself. -/
  | own
  /-- A place on the palette. -/
  | palette (place : Int)
  /-- So much red, green and blue. -/
  | mixed (red green blue : Int)
deriving DecidableEq, Repr

/-- Why a value is no colour. -/
inductive InkError where
  | unknown (value : Toml)
  /-- A mixture of another number of parts than three. -/
  | parts (count : Nat)
  /-- A part of a mixture that is no whole number. -/
  | part (typeName : Text)

/-- An error in words. -/
def InkError.message : InkError → Text
  | unknown v => "Unknown color " ++ v.shown
  | parts n =>
    if 3 < n then "too many values to unpack (expected 3)"
    else "not enough values to unpack (expected 3, got " ++ Text.ofNat n ++ ")"
  | part t => "Unknown format code 'd' for object of type " ++ Quoted.encode t

namespace Ink

/-- The ink of a name; the name of a bright one says so in front. -/
def ofName? (t : Text) : Option Ink :=
  if t = "reset" then some own
  else match Text.dropStart? "bright_" t with
    | some r => (Color.ofName? r).map fun c => named c true
    | none => (Color.ofName? t).map fun c => named c false

/-- The number that a value is, truth counting one. -/
def number? : Toml → Except InkError Int
  | .int n => .ok n
  | .bool b => .ok (if b then 1 else 0)
  | v => .error (.part v.typeName)

/-- The ink that a value asks for: a name, a place on the palette, or three parts of a mixture. -/
def ofValue (v : Toml) : Except InkError (Option Ink) :=
  match v with
  | .absent => .ok none
  | .arr [r, g, b] => do return some (mixed (← number? r) (← number? g) (← number? b))
  | .arr parts => .error (.parts parts.length)
  | .str t => match ofName? t with
    | some i => .ok (some i)
    | none => .error (.unknown v)
  | _ => match number? v with
    | .ok n => .ok (some (palette n))
    | .error _ => .error (.unknown v)

/-- The codes of an ink, for the ground behind the text or for the text. -/
def codes (ground : Bool) (i : Ink) : Text :=
  let first (n : Nat) : Text := Text.ofNat (if ground then n + 10 else n)
  match i with
  | named c bright => first ((if bright then 90 else 30) + c.number)
  | own => first 39
  | palette n => first 38 ++ ";5;" ++ Text.ofInt n
  | mixed r g b => first 38 ++ ";2;" ++ Text.join ";" [Text.ofInt r, Text.ofInt g, Text.ofInt b]

end Ink

end Legible
