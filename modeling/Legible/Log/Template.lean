import Legible.Decimal.Places
import Legible.Text.Case
import Legible.Text.Numeral
import Legible.Toml.Shown
/-!
Log messages with places for values. A place starts with a percent sign: then come the key of a value in
parentheses, flags, a width, a precision after a point, and a letter that says how to write the value. Two
percent signs stand for one.
-/

namespace Legible

/-- Why a message cannot be filled. -/
inductive PlaceError where
  /-- The text ends inside a place. -/
  | incomplete
  /-- The text ends inside a key. -/
  | incompleteKey
  /-- A place has a key, and the values have none. -/
  | noKeys
  | missingKey (key : Text)
  | tooFewValues
  | tooManyValues
  | unknownLetter (letter : CodePoint) (index : Nat)
  /-- The letter wants a whole number or a fraction. -/
  | notReal (letter : CodePoint) (typeName : Text)
  | notWhole (letter : CodePoint) (typeName : Text)
  /-- The letter wants what can be made a fraction. -/
  | notFraction (typeName : Text)
  | notCharacter
  | outsideCharacters
  | sizeNotWhole
  | widthTooBig
  | precisionTooBig
  /-- A width or precision among the values is too big. -/
  | sizeTooBig (type : Text)
  | infinite
  | notANumber
  | tooBigForFraction
deriving DecidableEq, Repr

namespace PlaceError

/-- What is wrong: the type of a value, the value itself, its size, or its key. -/
inductive Kind where
  | type
  | value
  | size
  | key
deriving DecidableEq, Repr

def kind : PlaceError → Kind
  | noKeys | tooFewValues | tooManyValues | notReal .. | notWhole .. | notFraction _ | notCharacter
  | sizeNotWhole => .type
  | outsideCharacters | sizeTooBig _ | infinite | tooBigForFraction => .size
  | missingKey _ => .key
  | _ => .value

/-- A code point in small hexadecimal letters. -/
def hexText (n : Nat) : Text := Text.ofString (String.ofList (Nat.toDigits 16 n))

/-- An error in words. -/
def message : PlaceError → Text
  | incomplete => "incomplete format"
  | incompleteKey => "incomplete format key"
  | noKeys => "format requires a mapping"
  | missingKey key => Quoted.encode key
  | tooFewValues => "not enough arguments for format string"
  | tooManyValues => "not all arguments converted during string formatting"
  | unknownLetter c i =>
    let shown : CodePoint := if 31 ≤ c.val && c.val ≤ 126 then c else '?'
    "unsupported format character '" ++ [shown] ++ "' (0x" ++ hexText c.val ++ ") at index " ++ Text.ofNat i
  | notReal c t => "%" ++ [c] ++ " format: a real number is required, not " ++ t
  | notWhole c t => "%" ++ [c] ++ " format: an integer is required, not " ++ t
  | notFraction t => "must be real number, not " ++ t
  | notCharacter => "%c requires int or char"
  | outsideCharacters => "%c arg not in range(0x110000)"
  | sizeNotWhole => "* wants int"
  | widthTooBig => "width too big"
  | precisionTooBig => "precision too big"
  | sizeTooBig t => "Python int too large to convert to C " ++ t
  | infinite => "cannot convert float infinity to integer"
  | notANumber => "cannot convert float NaN to integer"
  | tooBigForFraction => "int too large to convert to float"

end PlaceError

/-- How a value is written. -/
structure Place where
  /-- Filled up on the right. -/
  left : Bool := false
  /-- A plus sign stands before a number that is not negative. -/
  plus : Bool := false
  /-- A blank stands before a number that is not negative. -/
  blank : Bool := false
  /-- The base of a number is shown, and the point of a fraction in any case. -/
  alternate : Bool := false
  /-- A number is filled up with zeros. -/
  zeros : Bool := false
  width : Option Nat := none
  precision : Option Nat := none
deriving DecidableEq, Repr

namespace Place

/-- A text filled up to the width. -/
def padded (p : Place) (t : Text) : Text :=
  let gap := Text.repeated ' ' (p.width.getD 0 - t.length)
  if p.left then t ++ gap else gap ++ t

/-- A number filled up to the width; zeros go between its sign and base and its digits. -/
def paddedNumber (p : Place) (negative : Bool) (base digits : Text) : Text :=
  let sign : Text := if negative then "-" else if p.plus then "+" else if p.blank then " " else []
  let head := sign ++ base
  if p.zeros && !p.left then
    head ++ Text.repeated '0' (p.width.getD 0 - (head.length + digits.length)) ++ digits
  else p.padded (head ++ digits)

def cut (p : Place) (t : Text) : Text := p.padded (match p.precision with
  | some n => t.take n
  | none => t)

/-- A whole number in a base; `mark` is the letter that shows the base. -/
def whole (p : Place) (base : Nat) (mark : Option CodePoint) (n : Int) : Text :=
  let digits := Text.ofString (String.ofList (Nat.toDigits base n.natAbs))
  let digits := Text.repeated '0' (p.precision.getD 0 - digits.length) ++ digits
  let shown : Text := match mark with
    | some c => if p.alternate then ['0', c] else []
    | none => []
  p.paddedNumber (n < 0) shown digits

/-- A fraction with six places if none are asked for. -/
def fraction (p : Place) (layout : Double.Layout) (x : Double) : Text :=
  let t := x.laidOut layout (p.precision.getD 6) p.alternate
  match Text.dropStart? "-" t with
  | some size => p.paddedNumber true [] size
  | none => p.paddedNumber false [] t

/-- The whole number that a value is, truth counting one. -/
def whole? : Toml → Option Int
  | .int n => some n
  | .bool b => some (if b then 1 else 0)
  | _ => none

/-- The fraction that a value is. -/
def fraction? (v : Toml) : Except PlaceError Double :=
  match v, whole? v with
  | .float x, _ => .ok x
  | _, some n =>
    match Double.ofRatio n 1 with
    | .infinite _ => .error .tooBigForFraction
    | x => .ok x
  | _, none => .error (.notFraction v.typeName)

/-- The whole number of a value, a fraction cut towards zero. -/
def truncated (letter : CodePoint) (v : Toml) : Except PlaceError Int :=
  match v, whole? v with
  | .float x, _ => match x, x.truncate? with
    | _, some n => .ok n
    | .nan, none => .error .notANumber
    | _, none => .error .infinite
  | _, some n => .ok n
  | _, none => .error (.notReal letter v.typeName)

/-- The character that a value is or whose number it is. -/
def character (v : Toml) : Except PlaceError CodePoint :=
  match v, whole? v with
  | .str [c], _ => .ok c
  | _, some (.ofNat n) =>
    match CodePoint.ofNat? n with
    | some c => .ok c
    | none => .error .outsideCharacters
  | _, some _ => .error .outsideCharacters
  | _, none => .error .notCharacter

/-- ASCII alone: other characters by their numbers. -/
def asciiOnly (t : Text) : Text := t.flatMap fun c =>
  if c.val < 0x80 then [c]
  else if c.val < 0x100 then "\\x" ++ Text.hex 2 c.val
  else if c.val < 0x10000 then "\\u" ++ Text.hex 4 c.val
  else "\\U" ++ Text.hex 8 c.val

/-- The layout that a small letter asks for. -/
def layout? (letter : CodePoint) : Option Double.Layout :=
  if letter = 'f' then some .fixed else if letter = 'e' then some .scientific
  else if letter = 'g' then some .general else none

/-- Writes a value by the letter of its place; `index` is where the letter stands. -/
def write (p : Place) (letter : CodePoint) (index : Nat) (v : Toml) : Except PlaceError Text :=
  let inBase (base : Nat) : Except PlaceError Text :=
    match whole? v with
    | some n => .ok (p.whole base (some letter) n)
    | none => .error (.notWhole letter v.typeName)
  if letter = 's' then .ok (p.cut v.plain)
  else if letter = 'r' then .ok (p.cut v.shown)
  else if letter = 'a' then .ok (p.cut (asciiOnly v.shown))
  else if letter = 'd' || letter = 'i' || letter = 'u' then (truncated letter v).map (p.whole 10 none)
  else if letter = 'o' then inBase 8
  else if letter = 'x' then inBase 16
  else if letter = 'X' then (inBase 16).map Text.upper
  else if letter = 'c' then (character v).map fun c => p.padded [c]
  else match layout? letter, layout? ((Text.lower [letter]).headD letter) with
    | some l, _ => (fraction? v).map (p.fraction l)
    | none, some l => if letter.isUpper then (fraction? v).map fun x => Text.upper (p.fraction l x)
      else .error (.unknownLetter letter index)
    | none, none => .error (.unknownLetter letter index)

end Place

/-- The values of a message that are still to be written. -/
inductive PlaceValues where
  /-- In order. -/
  | listed (rest : List Toml)
  /-- By key; the value for the next place, until it is taken. -/
  | keyed (values : Toml.Table) (next : Option Toml)

namespace PlaceValues

/-- The values of a message: one table that is not empty gives its values by key. -/
def ofList : List Toml → PlaceValues
  | [.table t] => if t.isEmpty then .listed [.table t] else .keyed t (some (.table t))
  | vs => .listed vs

/-- Takes the next value. -/
def next : PlaceValues → Except PlaceError (Toml × PlaceValues)
  | listed (v :: r) => .ok (v, listed r)
  | keyed t (some v) => .ok (v, keyed t none)
  | _ => .error .tooFewValues

/-- Chooses the value of a key as the next one. -/
def choose (key : Text) : PlaceValues → Except PlaceError PlaceValues
  | listed _ => .error .noKeys
  | keyed t _ =>
    match Association.lookup t key with
    | some v => .ok (keyed t (some v))
    | none => .error (.missingKey key)

/-- No value in order is left. -/
def isDone : PlaceValues → Bool
  | listed (_ :: _) => false
  | _ => true

end PlaceValues

namespace LogMessage

/-- What a step gives, the rest of the message and the values that are left. -/
abbrev Step (α : Type) := Except PlaceError (α × Text × PlaceValues)

/-- Cuts a key off up to the parenthesis that closes it; `depth` counts those that are open. -/
def key? (depth : Nat) : Text → Option (Text × Text)
  | [] => none
  | c :: r =>
    if c = ')' then
      match depth with
      | 0 => some ([], r)
      | depth + 1 => (key? depth r).map fun (k, rest) => (c :: k, rest)
    else (key? (if c = '(' then depth + 1 else depth) r).map fun (k, rest) => (c :: k, rest)

/-- Reads the flags of a place. -/
def flags (p : Place) : Text → Place × Text
  | [] => (p, [])
  | c :: r =>
    if c = '-' then flags { p with left := true } r
    else if c = '+' then flags { p with plus := true } r
    else if c = ' ' then flags { p with blank := true } r
    else if c = '#' then flags { p with alternate := true } r
    else if c = '0' then flags { p with zeros := true } r
    else (p, c :: r)

/-- The greatest width, and the greatest precision. -/
def limits : Nat × Nat := (9223372036854775807, 2147483647)

/-- Reads a width or a precision: digits, or an asterisk for the next value. -/
def size (limit : Nat) (tooBig : PlaceError) (type t : Text) (vs : PlaceValues) : Step (Option Int) :=
  match t with
  | c :: r =>
    if c = '*' then
      match vs.next with
      | .error e => .error e
      | .ok (v, vs) =>
        match Place.whole? v with
        | none => .error .sizeNotWhole
        | some n => if limit < n.natAbs then .error (.sizeTooBig type) else .ok (some n, r, vs)
    else
      let digits := t.takeWhile CodePoint.isAsciiDigit
      let n := Numeral.value (digits.map (·.val - 48))
      if limit < n then .error tooBig
      else .ok (if digits.isEmpty then none else some (n : Int), t.drop digits.length, vs)
  | [] => .ok (none, [], vs)

/-- Reads the width of a place. A negative one fills up on the right. -/
def width (p : Place) (t : Text) (vs : PlaceValues) : Step Place :=
  (size limits.1 .widthTooBig "ssize_t" t vs).map fun (n, r) =>
    ({ p with width := n.map Int.natAbs, left := p.left || (n.getD 0) < 0 }, r)

/-- Reads the precision of a place behind a point. A missing or negative one is none. -/
def precision (p : Place) (t : Text) (vs : PlaceValues) : Step Place :=
  match Text.dropStart? "." t with
  | none => .ok (p, t, vs)
  | some r => (size limits.2 .precisionTooBig "int" r vs).map fun (n, r) =>
    ({ p with precision := some (n.getD 0).toNat }, r)

/-- Drops the one letter for the size of a number that may stand before the letter of a place. -/
def dropSize (t : Text) : Text :=
  match t with
  | c :: r => if c = 'h' || c = 'l' || c = 'L' then r else t
  | [] => []

/-- Fills the place at the start, behind its percent sign, in a message of `total` characters. -/
def place (total : Nat) (t : Text) (vs : PlaceValues) : Except PlaceError (Text × Text × PlaceValues) := do
  let keyed : Except PlaceError (Text × PlaceValues) := match Text.dropStart? "(" t with
    | none => .ok (t, vs)
    | some r =>
      match vs with
      | .listed _ => .error .noKeys
      | .keyed .. =>
        match key? 0 r with
        | none => .error .incompleteKey
        | some (key, r) => (vs.choose key).map (r, ·)
  let (t, vs) ← keyed
  let (p, t) := flags {} t
  let (p, t, vs) ← width p t vs
  let (p, t, vs) ← precision p t vs
  match dropSize t with
  | [] => .error .incomplete
  | letter :: r =>
    let (v, vs) ← vs.next
    let text ← p.write letter (total - r.length - 1) v
    return (text, r, vs)

/-- Puts values into the places of a message, from left to right. -/
def fillPlaces (total : Nat) : Nat → Text → PlaceValues → Except PlaceError Text
  | 0, _, _ => .ok []
  | _ + 1, [], vs => if vs.isDone then .ok [] else .error .tooManyValues
  | fuel + 1, c :: r, vs =>
    if c = '%' then
      match Text.dropStart? "%" r with
      | some r => (fillPlaces total fuel r vs).map (c :: ·)
      | none => do
        let (text, r, vs) ← place total r vs
        return text ++ (← fillPlaces total fuel r vs)
    else (fillPlaces total fuel r vs).map (c :: ·)

/-- A message with its values; without values it is left as it is. -/
def fill (message : Text) (values : List Toml) : Except PlaceError Text :=
  if values.isEmpty then .ok message
  else fillPlaces message.length (message.length + 1) message (.ofList values)

end LogMessage

end Legible
