import Legible.Config.Field
/-!
Settings that a program makes by name and without regard to types. A value of another type than that of its
field is kept beside the draft, and is taken for what it stands for where the settings are finished: a truth
value for any value, a number for one that can be compared, and a command or a title for itself.
-/

namespace Legible

/-- Why a value of another type cannot stand for one of its field. -/
inductive TypeMistake where
  /-- Only numbers can be compared with a number. -/
  | notComparable (value : Toml)
  /-- The value has no items. -/
  | noItems (value : Toml)

/-- The mistake in words. -/
def TypeMistake.message : TypeMistake → Text
  | notComparable v => "'>' not supported between instances of " ++ Quoted.encode v.typeName ++ " and 'int'"
  | noItems v => Quoted.encode v.typeName ++ " object is not iterable"

/-- Why settings cannot be finished. -/
inductive FreezeFault where
  /-- A value of another type cannot stand for one of its field. -/
  | mistake (mistake : TypeMistake)
  /-- A number out of range cannot be written. -/
  | numeral (error : NumeralError)

/-- The fault in words. -/
def FreezeFault.message : FreezeFault → Text
  | mistake m => m.message
  | numeral e => e.message

namespace Toml

/-- The number that a value stands for in comparisons with nought: itself, or its sign alone. -/
def sign? : Toml → Option Int
  | int i => some i
  | bool b => some (if b then 1 else 0)
  | float .nan => some (-1)
  | float (.infinite negative) => some (if negative then -1 else 1)
  | float (.finite negative m _) => some (if m = 0 then 0 else if negative then -1 else 1)
  | _ => none

/-- What a value is made of: the characters of a text, the items of an array, the keys of a table. -/
def elements? : Toml → Option (List Toml)
  | str t => some (t.map fun c => str [c])
  | arr vs => some vs
  | table ps => some (ps.map fun p => str p.1)
  | _ => none

/-- A value as it stands in a message, if it is no number with too many digits. -/
def told : Toml → Except NumeralError Text
  | int i => Numeral.shown i
  | v => .ok v.plain

end Toml

/-- A draft and the fields with values of other types; these count. -/
structure LooseDraft where
  draft : Draft
  odd : List (Field × Toml) := []
  /-- When the draft was made, in the words of its maker. -/
  made : Text := []

/-- Settings and the fields with values of other types; these count. -/
structure LooseConfig where
  config : Config
  odd : List (Field × Toml) := []
  /-- When the draft of the settings was made. -/
  made : Text := []

namespace LooseDraft

/-- The value of a field. -/
def get (d : LooseDraft) (f : Field) : Toml := (Association.lookup d.odd f).getD (d.draft.get f)

/-- Sets a field to a value of any type. -/
def set (d : LooseDraft) (f : Field) (v : Toml) : LooseDraft :=
  let others := d.odd.filter fun p => p.1 ≠ f
  match d.draft.set? f v with
  | some e => { d with draft := e, odd := others }
  | none => { d with draft := d.draft.unset f, odd := others ++ [(f, v)] }

/-- Sets a field to the value that stands beside it. -/
def setPair (d : LooseDraft) (p : Field × Toml) : LooseDraft := d.set p.1 p.2

/-- The two drafts as layers: what the second one sets counts. -/
def mergeWith (d e : LooseDraft) : LooseDraft where
  draft := d.draft.mergeWith e.draft
  odd := (d.odd.filter fun p => (e.get p.1).isAbsent) ++ e.odd
  made := d.made

/-- Sets the fields that a command line may override and has a value for, and lists it as a source if there
are any. -/
def override (d : LooseDraft) (args : Toml.Table) : LooseDraft :=
  let given := (args.filter fun p => !p.2.isAbsent).filterMap fun p =>
    (Field.ofName? Field.overridable p.1).map fun f => (f, p.2)
  let e := given.foldl setPair d
  if given.isEmpty then e
  else { e with draft := { e.draft with sources := e.draft.sources ++ [.commandLine] } }

/-- A number of at least `least`, as far as its sign tells; another one is unset, with an issue. -/
def number (name : Text) (least : Int) (fallback : Nat) : Toml → Except FreezeFault (Toml × List Text)
  | .absent => .ok (.absent, [])
  | v => match v.sign? with
    | none => .error (.mistake (.notComparable v))
    | some n =>
      if least ≤ n then .ok (v, [])
      else (v.told.mapError .numeral).map fun t => (.absent, [Draft.rangeText name t fallback])

/-- What a value is made of, as an array. -/
def elements (v : Toml) : Except FreezeFault Toml :=
  match v.elements? with
  | some vs => .ok (.arr vs)
  | none => .error (.mistake (.noItems v))

/-- What a value counts as. -/
def truth (v : Toml) : Except FreezeFault Toml := .ok (.bool v.isTrue)

/-- A value that counts as true; another one is unset. -/
def ifTrue (v : Toml) : Except FreezeFault Toml := .ok (if v.isTrue then v else .absent)

/-- Sets a field to what its value stands for, where it is one of another type. -/
def settle (how : Toml → Except FreezeFault Toml) (d : LooseDraft) (f : Field) :
    Except FreezeFault LooseDraft :=
  match Association.lookup d.odd f with
  | none => .ok d
  | some v => (how v).map (d.set f)

/-- Unsets a number out of range; its issues stand beside the draft. -/
def settleNumber (d : LooseDraft) (f : Field) (name : Text) (least : Int) (fallback : Nat) :
    Except FreezeFault (LooseDraft × List Text) :=
  (number name least fallback (d.get f)).map fun (v, issues) => (d.set f v, issues)

/-- The finished settings: what is unset or out of range takes its built-in value, and what cannot stand for
a value of its field's type is a mistake. -/
def freeze (d : LooseDraft) : Except FreezeFault LooseConfig := do
  let b := Config.default
  let d ← d.settle elements .issues
  let (d, i) ← d.settleNumber .printWidth "print_width" 1 b.printWidth
  let (d, j) ← d.settleNumber .timeoutMs "timeout_ms" 1 b.timeoutMs
  let (d, k) ← d.settleNumber .cacheMaxEntries "max_entries" 0 b.cacheMaxEntries
  let d ← [Field.sources, .formatterArgs, .searchPaths].foldlM (settle elements) d
  let d ← [Field.syncFormat, .cacheEnabled, .formatOnOpen].foldlM (settle truth) d
  let d ← [Field.formatterCmd, .title].foldlM (settle ifTrue) d
  let c ← d.draft.freeze.mapError .numeral
  return { config := { c with issues := c.issues ++ i ++ j ++ k }, odd := d.odd, made := d.made }

end LooseDraft

namespace LooseConfig

/-- The settings as a draft. -/
def thaw (c : LooseConfig) : LooseDraft := { draft := c.config.thaw, odd := c.odd, made := c.made }

/-- The settings as a table. -/
def toTable (c : LooseConfig) : Toml.Table :=
  c.odd.foldl (fun t p => match p.1.key? with
    | some (name, key) => Association.assign t name (.table (Association.assign (Toml.subtable t name) key p.2))
    | none => t) c.config.toTable

/-- The deadline in seconds. There is none where it is beyond all doubles. -/
def seconds? (c : LooseConfig) : Option Double :=
  match Association.lookup c.odd .timeoutMs with
  | some (.float d) => some (d.divide 1000)
  | some (.bool b) => Double.seconds? (if b then 1 else 0)
  | _ => Double.seconds? c.config.timeoutMs

end LooseConfig

end Legible
