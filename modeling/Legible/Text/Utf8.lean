import Legible.Text.Quoted
/-!
UTF-8: writing code points, reading bytes, and what is wrong with bytes that are none.
-/

namespace Legible

/-- The content of a file or pipe. -/
abbrev Bytes := List UInt8

namespace Utf8

/-- The bytes of a code point; a surrogate has three. -/
def encodeOne (c : CodePoint) : Bytes :=
  let n := c.val
  if n < 0x80 then [n.toUInt8]
  else if n < 0x800 then [(0xC0 + n / 64).toUInt8, (0x80 + n % 64).toUInt8]
  else if n < 0x10000 then
    [(0xE0 + n / 4096).toUInt8, (0x80 + n / 64 % 64).toUInt8, (0x80 + n % 64).toUInt8]
  else
    [(0xF0 + n / 262144).toUInt8, (0x80 + n / 4096 % 64).toUInt8, (0x80 + n / 64 % 64).toUInt8,
     (0x80 + n % 64).toUInt8]

/-- The bytes of a text, surrogates included. -/
def encode (t : Text) : Bytes := t.flatMap encodeOne

/-- The bytes of a text, with a question mark for each surrogate. -/
def encodeReplacing (t : Text) : Bytes :=
  t.flatMap fun c => encodeOne (if c.isSurrogate then '?' else c)

/-- Surrogates that UTF-8 does not have: where they start, and which they are. -/
structure EncodeError where
  place : Nat
  points : Text
deriving DecidableEq, Repr

/-- The first code point for which there are no bytes, with the surrogates behind it. -/
def EncodeError.find? (fails : CodePoint → Bool) (t : Text) : Option EncodeError :=
  (t.findIdx? fails).map fun i => ⟨i, (t.drop i).takeWhile CodePoint.isSurrogate⟩

/-- What is said of surrogates that cannot be written. -/
def EncodeError.message (e : EncodeError) : Text :=
  let what := match e.points with
    | [c] => "character '\\u" ++ Text.hex 4 c.val ++ "' in position " ++ Text.ofNat e.place
    | ps => "characters in position " ++ Text.ofNat e.place ++ "-"
      ++ Text.ofNat (e.place + ps.length - 1)
  "'utf-8' codec can't encode " ++ what ++ ": surrogates not allowed"

/-- Stands for a byte that is no UTF-8, in the name of a file. -/
def isByteMark (c : CodePoint) : Bool := 0xDC80 ≤ c.val && c.val ≤ 0xDCFF

/-- Why bytes are no UTF-8. -/
inductive Fault where
  | startByte
  | continuationByte
  | endOfData
deriving DecidableEq, Repr

/-- Bytes at a place that are no UTF-8; `length` bytes are to blame. -/
structure DecodeError where
  position : Nat
  length : Nat
  first : UInt8
  fault : Fault
deriving DecidableEq, Repr

/-- The first character of some bytes, or how many bytes at their start are to blame and why. -/
inductive Step where
  | char (c : CodePoint) (length : Nat)
  | fault (length : Nat) (fault : Fault)

/-- A byte that goes on with a character: ten, then six bits of its number. -/
def isContinuation (b : UInt8) : Bool := 0x80 ≤ b && b < 0xC0

/-- A byte that may follow the first byte `a` of three or four: with a short form, a surrogate or a
number beyond the last code point it would be in vain. -/
def isSecond (a b : UInt8) : Bool :=
  isContinuation b &&
  (if a = 0xE0 then 0xA0 ≤ b else if a = 0xED then b < 0xA0
   else if a = 0xF0 then 0x90 ≤ b else if a = 0xF4 then b < 0x90 else true)

/-- The code point with these groups of six bits. -/
def assemble (groups : List Nat) : CodePoint :=
  .ofNat (groups.foldl (fun n g => n * 64 + g) 0)

/-- Reads the character that starts with byte `a`; the bytes after it follow. -/
def step (a : UInt8) (r : Bytes) : Step :=
  let low (b : UInt8) : Nat := b.toNat - 0x80
  if a < 0x80 then .char (.ofNat a.toNat) 1
  else if a < 0xC2 || 0xF5 ≤ a then .fault 1 .startByte
  else match r with
    | [] => .fault 1 .endOfData
    | b :: r =>
      if a < 0xE0 then
        if isContinuation b then .char (assemble [a.toNat - 0xC0, low b]) 2
        else .fault 1 .continuationByte
      else if !isSecond a b then .fault 1 .continuationByte
      else match r with
        | [] => .fault 2 .endOfData
        | c :: r =>
          if !isContinuation c then .fault 2 .continuationByte
          else if a < 0xF0 then .char (assemble [a.toNat - 0xE0, low b, low c]) 3
          else match r with
            | [] => .fault 3 .endOfData
            | d :: _ =>
              if isContinuation d then .char (assemble [a.toNat - 0xF0, low b, low c, low d]) 4
              else .fault 3 .continuationByte

/-- Reads bytes from a place on; `skip` of them belong to the character before. -/
def decodeFrom (place skip : Nat) : Bytes → Except DecodeError Text
  | [] => .ok []
  | a :: r =>
    match skip with
    | k + 1 => decodeFrom (place + 1) k r
    | 0 => match step a r with
      | .char c n => (decodeFrom (place + 1) (n - 1) r).map (c :: ·)
      | .fault n f => .error ⟨place, n, a, f⟩

/-- The text of bytes that are UTF-8. -/
def decode (bs : Bytes) : Except DecodeError Text := decodeFrom 0 0 bs

/-- Reads bytes, with U+FFFD for each group of bytes to blame. -/
def decodeReplacingFrom (skip : Nat) : Bytes → Text
  | [] => []
  | a :: r =>
    match skip with
    | k + 1 => decodeReplacingFrom k r
    | 0 => match step a r with
      | .char c n => c :: decodeReplacingFrom (n - 1) r
      | .fault n _ => .ofNat 0xFFFD :: decodeReplacingFrom (n - 1) r

def decodeReplacing (bs : Bytes) : Text := decodeReplacingFrom 0 bs

/-- The fault in words. -/
def Fault.message : Fault → Text
  | .startByte => "invalid start byte"
  | .continuationByte => "invalid continuation byte"
  | .endOfData => "unexpected end of data"

/-- The error in words, with the place of the bytes to blame. -/
def DecodeError.message (e : DecodeError) : Text :=
  let where_ : Text :=
    if e.length = 1 then
      "byte 0x" ++ Text.hex 2 e.first.toNat ++ " in position " ++ Text.ofNat e.position
    else
      "bytes in position " ++ Text.ofNat e.position ++ "-"
        ++ Text.ofNat (e.position + e.length - 1)
  "'utf-8' codec can't decode " ++ where_ ++ ": " ++ e.fault.message

end Utf8

end Legible
