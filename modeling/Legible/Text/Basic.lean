/-!
Text as a list of code points. Unlike `Char`, a code point may be a surrogate, so that text read
from an escape such as `\ud800` is kept as it is.
-/

namespace Legible

/-- A Unicode code point, surrogates included. -/
structure CodePoint where
  val : Nat
  lt : val < 0x110000
deriving DecidableEq

namespace CodePoint

def ofChar (c : Char) : CodePoint :=
  ⟨c.toNat, by
    have h := c.valid
    simp only [UInt32.isValidChar, Nat.isValidChar] at h
    show c.val.toNat < _
    omega⟩

@[simp] theorem ofChar_inj {c d : Char} : ofChar c = ofChar d ↔ c = d := by
  simp only [ofChar, mk.injEq]
  exact ⟨fun h => Char.ext (UInt32.toNat_inj.1 h), fun h => by rw [h]⟩

instance : Coe Char CodePoint := ⟨ofChar⟩
instance : Inhabited CodePoint := ⟨ofChar ' '⟩
instance : Repr CodePoint := ⟨fun c _ => repr c.val⟩

/-- The code point of a number, where there is one. -/
def ofNat? (n : Nat) : Option CodePoint :=
  if h : n < 0x110000 then some ⟨n, h⟩ else none

/-- The code point of a number; U+FFFD stands for a number that is none. -/
def ofNat (n : Nat) : CodePoint :=
  (ofNat? n).getD ⟨0xFFFD, by decide⟩

/-- Half of a pair of UTF-16 units. -/
def isSurrogate (c : CodePoint) : Bool := 0xD800 ≤ c.val && c.val ≤ 0xDFFF

/-- The character of a code point that is no surrogate. -/
def toChar? (c : CodePoint) : Option Char :=
  if c.isSurrogate then none else some (Char.ofNat c.val)

/-- Between two characters, both included. -/
def within (c : CodePoint) (lo hi : Char) : Bool := lo.toNat ≤ c.val && c.val ≤ hi.toNat

/-- A line feed. -/
def isNewline (c : CodePoint) : Bool := c = ofChar '\n'

/-- An ASCII capital letter. -/
def isUpper (c : CodePoint) : Bool := c.within 'A' 'Z'

/-- An ASCII small letter. -/
def isLower (c : CodePoint) : Bool := c.within 'a' 'z'

def isAsciiDigit (c : CodePoint) : Bool := c.within '0' '9'

def isLetter (c : CodePoint) : Bool := c.isUpper || c.isLower

end CodePoint

/-- A sequence of code points. -/
abbrev Text := List CodePoint

namespace Text

def ofString (s : String) : Text := s.toList.map CodePoint.ofChar

instance : Coe String Text := ⟨ofString⟩

/-- The string of a text without surrogates. -/
def toString? (t : Text) : Option String :=
  (t.mapM CodePoint.toChar?).map String.ofList

/-- The string of a text, with U+FFFD for each surrogate. -/
def toString (t : Text) : String :=
  String.ofList (t.map fun c => (c.toChar?).getD (Char.ofNat 0xFFFD))

/-- The decimal digits of a number. -/
def ofNat (n : Nat) : Text := ofString (ToString.toString n)

/-- The decimal digits of a number, after a minus sign if it is negative. -/
def ofInt (i : Int) : Text :=
  if i < 0 then "-" ++ ofNat i.natAbs else ofNat i.natAbs

/-- A line feed. -/
def newline : Text := "\n"

/-- Copies of a character. -/
def repeated (c : CodePoint) (n : Nat) : Text := List.replicate n c

/-- Puts a separator between the parts. -/
def join (sep : Text) : List Text → Text
  | [] => []
  | [t] => t
  | t :: u :: r => t ++ sep ++ join sep (u :: r)

/-- Puts line feeds between the lines. -/
def unlines (ls : List Text) : Text := join newline ls

/-- Cuts at every occurrence of a character; there is always at least one part. -/
def splitAtEach (c : CodePoint) : Text → List Text
  | [] => [[]]
  | x :: r =>
    if x = c then [] :: splitAtEach c r
    else match splitAtEach c r with
      | [] => [[x]]
      | p :: ps => (x :: p) :: ps

def startsWith (t p : Text) : Bool := p.isPrefixOf t

def endsWith (t s : Text) : Bool := s.isSuffixOf t

/-- The rest of the text behind `p`, where it starts with `p`. -/
def dropStart? (p t : Text) : Option Text :=
  if p.isPrefixOf t then some (t.drop p.length) else none

/-- Some part of the text is `p`. -/
def contains (t p : Text) : Bool :=
  match t with
  | [] => p.isEmpty
  | c :: r => p.isPrefixOf (c :: r) || contains r p

/-- Removes every character that fails the test from the end. -/
def dropEndWhile (p : CodePoint → Bool) (t : Text) : Text :=
  (t.reverse.dropWhile p).reverse

/-- Replaces each occurrence of `old`, found from left to right without overlap, by `new`. An empty
`old` occurs nowhere. -/
def replace (old new t : Text) : Text :=
  match t with
  | [] => []
  | c :: r =>
    if old.isPrefixOf (c :: r) && !old.isEmpty then
      new ++ replace old new (r.drop (old.length - 1))
    else c :: replace old new r
termination_by t.length
decreasing_by
  · simp only [List.length_drop, List.length_cons]; omega
  · simp

/-- Fills up with blanks on the right. -/
def padEnd (width : Nat) (t : Text) : Text := t ++ repeated ' ' (width - t.length)

/-- The text in the order of its code points comes before another one. -/
def lt : Text → Text → Bool
  | _, [] => false
  | [], _ :: _ => true
  | c :: r, d :: s => c.val < d.val || (c = d && lt r s)

end Text

end Legible
