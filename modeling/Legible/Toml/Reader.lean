import Legible.Toml.Scalar
import Legible.Toml.Token
/-!
Reading TOML. A document is well-formed throughout or not read at all; a key that a table has already is
told apart from ill-formed text.
-/

namespace Legible.Toml

/-- A key with dots as nested tables. -/
def nested (names : List Text) (n : Node) : Option (Key × Node) :=
  match names.map (fun name => ({ name } : Key)) with
  | [] => none
  | k :: ks => some (Body.nest n k ks)

/-- A conflict as a reason to stop. -/
def orStop (x : Except Conflict α) : Except Stop α := x.mapError .conflict

/-! ## Values -/

/-- A number, a date or a time. A blank may stand between a date and a time. -/
def scalar (t : Text) : Read Toml :=
  let token := t.takeWhile fun c => !isTokenEnd c
  let rest := t.dropWhile fun c => !isTokenEnd c
  match moment? token with
  | some (.date d) =>
    let clock := (rest.drop 1).takeWhile fun c => !isTokenEnd c
    if Text.startsWith rest " " && clock.any CodePoint.isAsciiDigit then
      match moment? (token ++ " " ++ clock) with
      | some v => .ok (v, rest.drop (clock.length + 1))
      | none => .error .malformed
    else .ok (.date d, rest)
  | some v => .ok (v, rest)
  | none => match number? token with
    | some v => .ok (v, rest)
    | none => .error .malformed

mutual

/-- Reads the value at the start; `depth` tells how much deeper values may stand inside it. -/
def value : Nat → Nat → Text → Read Toml
  | 0, _, _ => .error .malformed
  | _ + 1, _, [] => .error .malformed
  | fuel + 1, depth, c :: r =>
    let t := c :: r
    if c = '"' || c = '\'' then (string t).map fun ((s, _), rest) => (.str s, rest)
    else if c = '[' then
      match depth with
      | 0 => .error .malformed
      | depth + 1 => array fuel depth [] r
    else if c = '{' then
      match depth with
      | 0 => .error .malformed
      | depth + 1 => inline fuel depth [] r
    else match Text.dropStart? "true" t, Text.dropStart? "false" t with
      | some rest, _ => .ok (.bool true, rest)
      | none, some rest => .ok (.bool false, rest)
      | none, none => scalar t

/-- Reads the items of an array; those before are in reverse. A comma may follow the last one. -/
def array : Nat → Nat → List Toml → Text → Read Toml
  | 0, _, _, _ => .error .malformed
  | fuel + 1, depth, before, t =>
    match skipGaps false t with
    | .error e => .error e
    | .ok [] => .error .malformed
    | .ok (c :: r) =>
      if c = ']' then .ok (.arr before.reverse, r)
      else match value fuel depth (c :: r) with
        | .error e => .error e
        | .ok (v, rest) =>
          match skipGaps false rest with
          | .error e => .error e
          | .ok [] => .error .malformed
          | .ok (d :: s) =>
            if d = ',' then array fuel depth (v :: before) s
            else if d = ']' then .ok (.arr (v :: before).reverse, s)
            else .error .malformed

/-- Reads the pairs of a table between braces, after those before. A comma may follow the last one. -/
def inline : Nat → Nat → Body → Text → Read Toml
  | 0, _, _, _ => .error .malformed
  | fuel + 1, depth, before, t =>
    let close (body : Body) (rest : Text) : Read Toml :=
      (orStop (Body.toTable (fuel + 1) body)).map fun table => (.table table, rest)
    match skipGaps false t with
    | .error e => .error e
    | .ok [] => .error .malformed
    | .ok (c :: r) =>
      if c = '}' then close before r
      else match pair fuel depth (c :: r) with
        | .error e => .error e
        | .ok ((names, v), rest) =>
          match nested names (.value v) with
          | none => .error .malformed
          | some (k, n) =>
            match orStop (Body.append true (fuel + 1) before k n) with
            | .error e => .error e
            | .ok body =>
              match skipGaps false rest with
              | .error e => .error e
              | .ok [] => .error .malformed
              | .ok (d :: s) =>
                if d = ',' then inline fuel depth body s
                else if d = '}' then close body s
                else .error .malformed

/-- Reads a key, an equals sign and a value. -/
def pair : Nat → Nat → Text → Read (List Text × Toml)
  | 0, _, _ => .error .malformed
  | fuel + 1, depth, t =>
    match key t with
    | .error e => .error e
    | .ok (names, rest) =>
      match equals rest with
      | .error e => .error e
      | .ok rest => (value fuel depth rest).map fun (v, rest) => ((names, v), rest)

end

/-! ## Tables -/

/-- A header: its names, and whether it is that of an element of an array. -/
structure Header where
  names : List Text
  element : Bool
deriving DecidableEq

/-- Reads a header up to its closing bracket; the text starts with the opening one. -/
def header (t : Text) : Read Header :=
  match t.drop 1 with
  | [] => .error .malformed
  | c :: r =>
    let element := decide (c = CodePoint.ofChar '[')
    (key (if element then r else c :: r)).map fun (names, rest) => ({ names, element }, rest)

/-- The second header is that of a table inside that of the first. -/
def isInside (outer inner : List Text) : Bool :=
  outer ≠ inner && outer.isPrefixOf inner

/-- Adds a pair or a table to the table that is being read; what its key holds must come together. -/
def grow (check : Bool) (fuel : Nat) (b : Body) (k : Key) (n : Node) : Except Stop Body := do
  let b ← orStop (Body.append check fuel b k n)
  let _ ← orStop (Body.gather fuel b k.name)
  return b

/-- What stands behind the first of several names of a header: all but the last are implicit tables. -/
def underNames (last : Node) : List Text → Node
  | [] => last
  | name :: r => .table true [({ name }, underNames last r)]

/-- Reads pairs up to the next header, and adds each to those before by `grow`. -/
def pairs (grow : Body → Key → Node → Except Stop Body) : Nat → Body → Text → Read Body
  | 0, _, _ => .error .malformed
  | fuel + 1, b, t =>
    match skipGaps false t with
    | .error e => .error e
    | .ok [] => .ok (b, [])
    | .ok (c :: r) =>
      if c = '[' then .ok (b, c :: r)
      else match pair fuel maxDepth (c :: r) with
        | .error e => .error e
        | .ok ((names, v), rest) =>
          match lineEnd rest with
          | .error e => .error e
          | .ok rest =>
            match nested names (.value v) with
            | none => .error .malformed
            | some (k, n) =>
              match grow b k n with
              | .error e => .error e
              | .ok b => pairs grow fuel b rest

mutual

/-- Reads a table with its header and the tables inside it. The names of the outer header are left out;
`arrays` holds the arrays of tables that are being read, the innermost one first. -/
def readTable (outer : List Text) (arrays : List (List Text)) : Nat → Text → Read (Text × Node)
  | 0, _ => .error .malformed
  | fuel + 1, t =>
    match header t with
    | .error e => .error e
    | .ok (h, rest) =>
      match Text.dropStart? (if h.element then "]]" else "]") rest with
      | none => .error .malformed
      | some rest =>
        match lineEnd rest with
        | .error e => .error e
        | .ok rest =>
          match pairs (grow true (fuel + 1)) fuel [] rest with
          | .error e => .error e
          | .ok (body, rest) =>
            match inner h.names arrays fuel body rest with
            | .error e => .error e
            | .ok (body, rest) =>
              match orStop (Body.checkAll (fuel + 1) body body.names) with
              | .error e => .error e
              | .ok () =>
                match h.names.drop outer.length with
                | first :: second :: more =>
                  let last : Node := if h.element then .tables [body] else .table false body
                  .ok ((first, underNames last (second :: more)), rest)
                | own =>
                  let name := (own.head?).getD (h.names.headD [])
                  if h.element && arrays.head? ≠ some h.names then
                    (elements h.names arrays fuel [body] rest).map fun (bodies, rest) =>
                      ((name, .tables bodies), rest)
                  else .ok ((name, .table false body), rest)

/-- Reads the tables inside the one of these names. -/
def inner (names : List Text) (arrays : List (List Text)) : Nat → Body → Text → Read Body
  | 0, _, _ => .error .malformed
  | _ + 1, b, [] => .ok (b, [])
  | fuel + 1, b, c :: r =>
    match header (c :: r) with
    | .error e => .error e
    | .ok (h, _) =>
      if isInside names h.names then
        match readTable names arrays fuel (c :: r) with
        | .error e => .error e
        | .ok ((name, n), rest) =>
          match grow false (fuel + 1) b { name } n with
          | .error e => .error e
          | .ok b => inner names arrays fuel b rest
      else .ok (b, c :: r)

/-- Reads the further elements of an array of tables. -/
def elements (names : List Text) (arrays : List (List Text)) : Nat → List Body → Text → Read (List Body)
  | 0, _, _ => .error .malformed
  | _ + 1, before, [] => .ok (before, [])
  | fuel + 1, before, c :: r =>
    match header (c :: r) with
    | .error e => .error e
    | .ok (h, _) =>
      if h.element && h.names = names then
        match readTable names (names :: arrays) fuel (c :: r) with
        | .error e => .error e
        | .ok ((_, .table _ body), rest) => elements names arrays fuel (before ++ [body]) rest
        | .ok _ => .error .malformed
      else .ok (before, c :: r)

end

/-- Adds to the document itself: a conflict there makes the text ill-formed. -/
def growTop (fuel : Nat) (b : Body) (k : Key) (n : Node) : Except Stop Body :=
  (Body.append true fuel b k n).mapError fun _ => .malformed

/-- Reads the tables of the document. -/
def topTables : Nat → Body → Text → Except Stop Body
  | 0, _, _ => .error .malformed
  | _ + 1, b, [] => .ok b
  | fuel + 1, b, c :: r =>
    match readTable [] [] fuel (c :: r) with
    | .error e => .error e
    | .ok ((name, n), rest) =>
      match growTop (fuel + 1) b { name } n with
      | .error e => .error e
      | .ok b => topTables fuel b rest

/-- Why a text is no TOML. -/
inductive Error where
  | malformed
  | conflict (c : Conflict)
deriving DecidableEq, Repr

/-- The table that a text stands for. -/
def parse (t : Text) : Except Error Table :=
  let fuel := 2 * t.length + 8
  let document : Except Stop Table := do
    let (b, rest) ← pairs (growTop fuel) fuel [] t
    let b ← topTables fuel b rest
    orStop (Body.toTable (2 * fuel) b)
  document.mapError fun
    | .conflict c => .conflict c
    | _ => .malformed

end Legible.Toml
