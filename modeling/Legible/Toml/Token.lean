import Legible.Text.Quoted
import Legible.Toml.Document
/-!
The parts of a TOML document below its values: white space, comments, strings and keys. Line ends are
line feeds, as text read from a file has them.
-/

namespace Legible.Toml

/-- Why reading stops. -/
inductive Stop where
  | malformed
  | conflict (c : Conflict)

/-- What a step has read, and the rest. -/
abbrev Read (α : Type) := Except Stop (α × Text)

/-- How deep arrays and tables on a line may stand inside each other, and how many names a key may have. -/
def maxDepth : Nat := 100

/-- A blank or a tab. -/
def isSpace (c : CodePoint) : Bool := c = ' ' || c = '\t'

/-- A blank, a tab or a line end. -/
def isGap (c : CodePoint) : Bool := isSpace c || c.isNewline

/-- Ends a number, a date or a time. -/
def isTokenEnd (c : CodePoint) : Bool := isGap c || c = '#' || c = ',' || c = ']' || c = '}'

/-- May stand in a key without quotes. -/
def isBare (c : CodePoint) : Bool := c.isLetter || c.isAsciiDigit || c = '-' || c = '_'

/-- A control character that text must not hold; a tab is allowed. -/
def isControl (c : CodePoint) : Bool := c.val = 127 || (c.val < 32 && c ≠ '\t')

/-- Skips blanks and tabs. -/
def skipSpaces (t : Text) : Text := t.dropWhile isSpace

/-- Skips white space, line ends and comments; `inside` tells that the text starts in a comment. -/
def skipGaps (inside : Bool) : Text → Except Stop Text
  | [] => .ok []
  | c :: r =>
    if isGap c then skipGaps (inside && !c.isNewline) r
    else if inside then if isControl c then .error .malformed else skipGaps true r
    else if c = '#' then skipGaps true r
    else .ok (c :: r)

/-- Skips what may follow a value or a header on its line, and the end of the line. -/
def lineEnd (t : Text) : Except Stop Text :=
  match skipSpaces t with
  | [] => .ok []
  | c :: r =>
    if c.isNewline then .ok r
    else if c = '#' then
      let body := r.takeWhile fun d => !d.isNewline
      if body.any isControl then .error .malformed else .ok (r.drop (body.length + 1))
    else .error .malformed

/-! ## Strings -/

/-- The character of a one-letter escape. -/
def unescape? (c : CodePoint) : Option CodePoint :=
  if c = 'b' then some (.ofNat 8)
  else if c = 't' then some '\t'
  else if c = 'n' then some '\n'
  else if c = 'f' then some (.ofNat 12)
  else if c = 'r' then some '\r'
  else if c = 'e' then some (.ofNat 27)
  else if c = '"' || c = '\\' then some c
  else none

/-- How many hexadecimal digits follow the letter of an escape. -/
def hexLength? (c : CodePoint) : Option Nat :=
  if c = 'x' then some 2 else if c = 'u' then some 4 else if c = 'U' then some 8 else none

/-- The character of so many hexadecimal digits; half of a pair is none. -/
def hexChar? (count : Nat) (t : Text) : Option (CodePoint × Text) :=
  let digits := (t.take count).filterMap CodePoint.hexValue?
  if digits.length < count then none
  else
    let value := digits.foldl (fun n d => n * 16 + d) 0
    ((CodePoint.ofNat? value).filter (!·.isSurrogate)).map (·, t.drop count)

/-- What an escape stands for; `t` follows the backslash. In a text of several lines a backslash at the
end of a line takes the white space up to the next character with it. -/
def escape (multi : Bool) (t : Text) : Read Text :=
  match t with
  | [] => .error .malformed
  | c :: r =>
    if multi && isGap c then
      if (t.takeWhile isGap).any CodePoint.isNewline then .ok ([], t.dropWhile isGap)
      else .error .malformed
    else
      let char? := match hexLength? c with
        | some count => hexChar? count r
        | none => (unescape? c).map (·, r)
      match char? with
      | some (d, r) => .ok ([d], r)
      | none => .error .malformed

/-- Reads up to the closing quote or quotes; `read` holds what is read, in reverse. Before three closing
quotes two more may stand as text. -/
def stringBody (quote : CodePoint) (basic multi : Bool) : Nat → Text → Text → Read Text
  | 0, _, _ => .error .malformed
  | _ + 1, _, [] => .error .malformed
  | fuel + 1, read, c :: r =>
    if isControl c && !(multi && c.isNewline) then .error .malformed
    else if c = quote then
      if multi then
        let count := ((c :: r).takeWhile (· = quote)).length
        let rest := (c :: r).drop count
        if count < 3 then stringBody quote basic multi fuel (List.replicate count quote ++ read) rest
        else if 6 ≤ count then .error .malformed
        else .ok ((List.replicate (count - 3) quote ++ read).reverse, rest)
      else .ok (read.reverse, r)
    else if basic && c = '\\' then
      match escape multi r with
      | .error e => .error e
      | .ok (ds, rest) => stringBody quote basic multi fuel (ds.reverse ++ read) rest
    else stringBody quote basic multi fuel (c :: read) r

/-- A string with its quotes, and whether it may have several lines. -/
def string (t : Text) : Read (Text × Bool) :=
  match t with
  | [] => .error .malformed
  | q :: r =>
    let basic := decide (q = CodePoint.ofChar '"')
    let body (multi : Bool) (s : Text) : Read (Text × Bool) :=
      (stringBody q basic multi (t.length + 1) [] s).map fun (s, rest) => ((s, multi), rest)
    match Text.dropStart? [q, q] r with
    | some s => body true ((Text.dropStart? Text.newline s).getD s)
    | none => body false r

/-! ## Keys -/

/-- One name of a key: bare, or in quotes on one line. -/
def keyName (t : Text) : Read Text :=
  match t with
  | [] => .error .malformed
  | q :: _ =>
    if q = '"' || q = '\'' then
      match string t with
      | .error e => .error e
      | .ok ((s, multi), rest) => if multi then .error .malformed else .ok (s, rest)
    else
      let bare := t.takeWhile isBare
      if bare.isEmpty then .error .malformed else .ok (bare, t.dropWhile isBare)

/-- The names of a key, which dots separate, with space around each. -/
def keyNames : Nat → Text → Read (List Text)
  | 0, _ => .error .malformed
  | fuel + 1, t =>
    match keyName (skipSpaces t) with
    | .error e => .error e
    | .ok (first, rest) =>
      match skipSpaces rest with
      | [] => .ok ([first], [])
      | c :: r =>
        if c = '.' then (keyNames fuel r).map fun (more, rest) => (first :: more, rest)
        else .ok ([first], c :: r)

/-- A key at the start, with the space behind it. -/
def key (t : Text) : Read (List Text) := keyNames maxDepth t

/-- Skips the equals sign behind a key and the space around it. -/
def equals (t : Text) : Except Stop Text :=
  match skipSpaces t with
  | c :: r => if c = '=' then .ok (skipSpaces r) else .error .malformed
  | [] => .error .malformed

end Legible.Toml
