import Legible.Text.Basic
/-!
The end of a quoted span. A quote closes the span only where braces, square brackets, parentheses and
angle brackets are each balanced by number; their order does not matter.
-/

namespace Legible.Message

/-- The quote around the spans of a message. -/
def quote : CodePoint := '\''

/-- How many openers there are more than closers, for each pair; it may be negative. -/
structure Depth where
  brace : Int := 0
  square : Int := 0
  round : Int := 0
  angle : Int := 0
deriving DecidableEq, Repr

namespace Depth

/-- The depth behind one more character. -/
def step (d : Depth) (c : CodePoint) : Depth :=
  if c = '{' then { d with brace := d.brace + 1 }
  else if c = '}' then { d with brace := d.brace - 1 }
  else if c = '[' then { d with square := d.square + 1 }
  else if c = ']' then { d with square := d.square - 1 }
  else if c = '(' then { d with round := d.round + 1 }
  else if c = ')' then { d with round := d.round - 1 }
  else if c = '<' then { d with angle := d.angle + 1 }
  else if c = '>' then { d with angle := d.angle - 1 }
  else d

/-- The depth behind a text. -/
def after (d : Depth) (t : Text) : Depth := t.foldl step d

/-- Each pair is balanced. -/
def isBalanced (d : Depth) : Bool := d = {}

end Depth

/-- How many characters stand before the first quote at which the depth, `d` at the start, is balanced. -/
def closingQuote? (d : Depth) : Text → Option Nat
  | [] => none
  | c :: r =>
    if c = quote then
      if d.isBalanced then some 0 else (closingQuote? d r).map (· + 1)
    else (closingQuote? (d.step c) r).map (· + 1)

/-- The place of the quote that closes a span whose content begins at `start`. -/
def findClosingQuote (text : Text) (start : Nat) : Option Nat :=
  (closingQuote? {} (text.drop start)).map (start + ·)

end Legible.Message
