import Legible.Terminal.Ink
/-!
Styled text for terminals: select-graphic-rendition sequences around a text, and the removal of control
sequences.
-/

namespace Legible

/-- How a text is to look. Each attribute can be left alone, switched on or switched off. -/
structure Style where
  foreground : Option Ink := none
  background : Option Ink := none
  bold : Option Bool := none
  dim : Option Bool := none
  underline : Option Bool := none
  overline : Option Bool := none
  italic : Option Bool := none
  blink : Option Bool := none
  reverse : Option Bool := none
  strikethrough : Option Bool := none
  /-- Ends the style behind the text. -/
  reset : Bool := true
deriving DecidableEq, Repr

namespace Style

def escape : CodePoint := Char.ofNat 27

def sequence (codes : Text) : Text := escape :: ("[" ++ codes ++ "m")

/-- The sequence that ends every style. -/
def plain : Text := sequence "0"

/-- The code that switches an attribute. -/
def switch (on off : Nat) (wanted : Option Bool) : List Text :=
  (wanted.map fun b => Text.ofNat (if b then on else off)).toList

/-- The codes of a style in the order in which they are written. -/
def codes (s : Style) : List Text :=
  (s.foreground.map (Ink.codes false)).toList ++ (s.background.map (Ink.codes true)).toList
    ++ switch 1 22 s.bold ++ switch 2 22 s.dim ++ switch 4 24 s.underline ++ switch 53 55 s.overline
    ++ switch 3 23 s.italic ++ switch 5 25 s.blink ++ switch 7 27 s.reverse ++ switch 9 29 s.strikethrough

def apply (s : Style) (t : Text) : Text :=
  (s.codes.map sequence).flatten ++ t ++ (if s.reset then plain else [])

/-- The style of a table: two inks, and truth or falsehood for attributes. -/
def ofTable (t : Toml.Table) : Except InkError Style := do
  let value (name : Text) : Toml := (Association.lookup t name).getD .absent
  let flag (name : Text) : Option Bool := match value name with
    | .bool b => some b
    | _ => none
  return {
    foreground := ← Ink.ofValue (value "fg")
    background := ← Ink.ofValue (value "bg")
    bold := flag "bold"
    dim := flag "dim"
    underline := flag "underline"
    overline := flag "overline"
    italic := flag "italic"
    blink := flag "blink"
    reverse := flag "reverse"
    strikethrough := flag "strikethrough"
    reset := (flag "reset").getD true }

/-- A text's colour. -/
def ofInk (i : Ink) : Style := { foreground := some i }

end Style

namespace Terminal

/-- From one number up to another. -/
def isAmong (first last : Nat) (c : CodePoint) : Bool := first ≤ c.val && c.val ≤ last

/-- The length of the control sequence at the start of a text: escape, bracket, parameters, intermediate
characters and a final one. -/
def sequenceLength? : Text → Option Nat
  | e :: b :: r =>
    if e = Style.escape && b = '[' then
      let (parameters, r) := List.span (isAmong 0x30 0x3F) r
      let (intermediates, r) := List.span (isAmong 0x20 0x2F) r
      match r with
      | c :: _ =>
        if isAmong 0x40 0x7E c then some (parameters.length + intermediates.length + 3) else none
      | [] => none
    else none
  | _ => none

/-- Goes on behind so many characters of a sequence. -/
def stripFrom (skip : Nat) : Text → Text
  | [] => []
  | c :: r =>
    if 0 < skip then stripFrom (skip - 1) r
    else match sequenceLength? (c :: r) with
      | some n => stripFrom (n - 1) r
      | none => c :: stripFrom 0 r

/-- A text without its control sequences. -/
def strip (t : Text) : Text := stripFrom 0 t

end Terminal

end Legible
