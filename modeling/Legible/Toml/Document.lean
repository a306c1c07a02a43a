import Legible.Toml.Basic
/-!
A TOML document while it is read: tables grow from several places, and each place says how far it may
add to what is there. A header may come once, before or after the names that mention it, but adds to nothing
that is scattered by then; keys with dots add to no array and to no table with a header, nor a header to a
table that they made.
-/

namespace Legible.Toml

/-- A key, and whether it stands before a dot of a key with dots. -/
structure Key where
  name : Text
  dotted : Bool := false
deriving DecidableEq, Repr

/-- What a key of a document holds: a value, a table or an array of tables. A table is implicit if only
the names of others mention it. -/
inductive Node where
  | value (v : Toml)
  | table (implicit : Bool) (body : List (Key × Node))
  | tables (bodies : List (List (Key × Node)))

/-- The keys of a table in the order of the document; a key may stand in several places. -/
abbrev Body := List (Key × Node)

/-- Why a document cannot grow so. -/
inductive Conflict where
  /-- The key has something already. -/
  | duplicate (name : Text)
  /-- The table was made by keys with dots. -/
  | redefined
deriving DecidableEq, Repr

namespace Body

def isTable : Node → Bool
  | .table .. => true
  | _ => false

/-- What the key holds in its last place. -/
def last? (b : Body) (name : Text) : Option (Key × Node) := b.reverse.find? (·.1.name = name)

/-- The last key that holds a table. -/
def lastTable? (b : Body) : Option Text := (b.reverse.find? (isTable ·.2)).map (·.1.name)

/-- Changes what the key holds in its last place. -/
def replaceLast (b : Body) (name : Text) (n : Node) : Body :=
  let rec go : Body → Body
    | [] => []
    | (k, m) :: r => if k.name = name then (k, n) :: r else (k, m) :: go r
  (go b.reverse).reverse

/-- Adds a place for a key; it may have others only if the last one is a table, or if both are arrays of
tables, which then become one. -/
def add (b : Body) (k : Key) (n : Node) : Except Conflict Body :=
  match b.last? k.name, n with
  | some (_, .table ..), _ => .ok (b ++ [(k, n)])
  | some (_, .tables bodies), .tables new => .ok (b.replaceLast k.name (.tables (bodies ++ new)))
  | some _, _ => .error (.duplicate k.name)
  | none, _ => .ok (b ++ [(k, n)])

/-- The names of the keys, each once, in order. -/
def names (b : Body) : List Text :=
  (b.foldl (fun ns (k, _) => if ns.contains k.name then ns else k.name :: ns) []).reverse

/-- What tables of this name hold, taken together. -/
def pieces (b : Body) (name : Text) : Body :=
  b.flatMap fun (k, n) => match n with
    | .table _ body => if k.name = name then body else []
    | _ => []

/-- The key has several places. -/
def isScattered (b : Body) (name : Text) : Bool := 1 < (b.filter (·.1.name = name)).length

/-- The name of a key that both have, and that stands in several places of the first one. -/
def scatteredIn? (b new : Body) : Option Text :=
  (new.find? fun (k, _) => b.isScattered k.name).map (·.1.name)

mutual

/-- Adds a key to a table, and checks that the pieces of a scattered table fit if so asked. A table that the names of
others mention becomes part of one that stands last and is mentioned only, too, or of the last element of an array of
tables. -/
def append (check : Bool) : Nat → Body → Key → Node → Except Conflict Body
  | 0, _, k, _ => .error (.duplicate k.name)
  | fuel + 1, b, k, n =>
    match b.last? k.name with
    | none => b.add k n
    | some (old, current) =>
      match n, current with
      | .table true body, .tables bodies =>
        if k.dotted then .error (.duplicate k.name)
        else match bodies.reverse with
          | last :: before => (appendAll true fuel last body).map fun merged =>
            b.replaceLast k.name (.tables (before.reverse ++ [merged]))
          | [] => .error (.duplicate k.name)
      | .table true body, .table true first =>
        if k.dotted || old.dotted || b.lastTable? ≠ some k.name then place check fuel b k n
        else (appendAll true fuel first body).map fun merged => b.replaceLast k.name (.table true merged)
      | .table true _, .table false _ => if k.dotted then .error .redefined else place check fuel b k n
      | .table false body, .table true first =>
        if old.dotted then .error .redefined
        else match scatteredIn? first body with
          | some name => .error (.duplicate name)
          | none => place check fuel b k n
      | .tables new, .tables bodies => .ok (b.replaceLast k.name (.tables (bodies ++ new)))
      | _, _ => .error (.duplicate k.name)

/-- Gives a key one more place. -/
def place (check : Bool) : Nat → Body → Key → Node → Except Conflict Body
  | 0, _, k, _ => .error (.duplicate k.name)
  | fuel + 1, b, k, n =>
    match b.add k n with
    | .error e => .error e
    | .ok b => if check then (checkPieces fuel b k.name).map fun _ => b else .ok b

/-- Adds keys one after the other; where pieces are checked, what a key holds must come together. -/
def appendAll (check : Bool) : Nat → Body → Body → Except Conflict Body
  | 0, b, _ => .ok b
  | _ + 1, b, [] => .ok b
  | fuel + 1, b, (k, n) :: r =>
    match append check fuel b k n with
    | .error e => .error e
    | .ok b =>
      if check then
        match gather fuel b k.name with
        | .error e => .error e
        | .ok _ => appendAll check fuel b r
      else appendAll check fuel b r

/-- What a scattered table holds: its pieces one behind the other, if those of its own tables fit. Any other
key has no pieces. -/
def gather : Nat → Body → Text → Except Conflict Body
  | 0, _, _ => .ok []
  | fuel + 1, b, name =>
    if b.isScattered name then
      match (b.pieces name).foldlM (fun b (k, n) => add b k n) ([] : Body) with
      | .error e => .error e
      | .ok (whole : Body) => (checkAll fuel whole (names whole)).map fun _ => whole
    else .ok []

/-- The pieces of a scattered table fit together. -/
def checkPieces : Nat → Body → Text → Except Conflict Unit
  | 0, _, _ => .ok ()
  | fuel + 1, b, name =>
    if b.isScattered name then
      match appendAll false fuel [] (b.pieces name) with
      | .error e => .error e
      | .ok whole => checkAll fuel whole whole.names
    else .ok ()

/-- The pieces of all scattered tables among these names fit together. -/
def checkAll : Nat → Body → List Text → Except Conflict Unit
  | 0, _, _ => .ok ()
  | _ + 1, _, [] => .ok ()
  | fuel + 1, b, name :: r =>
    match checkPieces fuel b name with
    | .error e => .error e
    | .ok () => checkAll fuel b r

end

/-- Puts a node under a key with dots: all names but the last are implicit tables. -/
def nest (n : Node) : Key → List Key → Key × Node
  | k, [] => (k, n)
  | k, l :: r =>
    let (k', n') := nest n l r
    ({ k with dotted := true }, .table true [(k', n')])

mutual

def nodeValue : Nat → Node → Except Conflict Toml
  | 0, _ => .ok .absent
  | _ + 1, .value v => .ok v
  | fuel + 1, .table _ body => (toTable fuel body).map .table
  | fuel + 1, .tables bodies => (toTables fuel bodies).map .arr

/-- The table of a body; the pieces of a scattered table are put together in order. -/
def toTable : Nat → Body → Except Conflict Table
  | 0, _ => .ok []
  | fuel + 1, b => namesToTable fuel b b.names

/-- The values of these keys. -/
def namesToTable : Nat → Body → List Text → Except Conflict Table
  | 0, _, _ => .ok []
  | _ + 1, _, [] => .ok []
  | fuel + 1, b, name :: r => do
    let v ←
      if b.isScattered name then
        let whole ← gather fuel b name
        (toTable fuel whole).map Toml.table
      else match b.last? name with
        | some (_, n) => nodeValue fuel n
        | none => .ok .absent
    let rest ← namesToTable fuel b r
    return (name, v) :: rest

/-- The tables of an array. -/
def toTables : Nat → List Body → Except Conflict (List Toml)
  | 0, _ => .ok []
  | _ + 1, [] => .ok []
  | fuel + 1, b :: r => do
    let t ← toTable fuel b
    let rest ← toTables fuel r
    return .table t :: rest

end

end Body

end Legible.Toml
