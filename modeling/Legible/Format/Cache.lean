import Legible.Association
import Legible.Text.Utf8
/-!
A bounded store of formatted types. An entry is found by a hash of the type and holds the type itself,
so that two types of one hash are never taken for each other. A full cache is emptied before the next
entry.
-/

namespace Legible

/-- The hash of a type: over its bytes in UTF-8, each step times 31 plus the byte, modulo `2 ^ 31 - 1`. -/
def cacheKey (content : Text) : Nat :=
  (Utf8.encode content).foldl (fun h b => (h * 31 + b.toNat) % 2147483647) 0

/-- An entry: a type and its formatted text. -/
structure CacheEntry where
  raw : Text
  formatted : Text
deriving DecidableEq, Repr

/-- The store. -/
structure Cache where
  enabled : Bool := true
  maxEntries : Int := 100
  entries : List (Nat × CacheEntry) := []
deriving DecidableEq, Repr

namespace Cache

/-- The number of entries. -/
def size (c : Cache) : Nat := c.entries.length

/-- The formatted text of a type. -/
def get? (c : Cache) (content : Text) : Option Text :=
  if c.enabled then
    match Association.lookup c.entries (cacheKey content) with
    | some e => if e.raw = content then some e.formatted else none
    | none => none
  else none

/-- Removes every entry. -/
def clear (c : Cache) : Cache := { c with entries := [] }

/-- Stores the formatted text of a type; a full cache is emptied first, and one of no size stays empty. -/
def set (c : Cache) (content formatted : Text) : Cache :=
  if !c.enabled || c.maxEntries ≤ 0 then c
  else
    let kept := if c.maxEntries ≤ c.size then [] else c.entries
    { c with entries := Association.assign kept (cacheKey content) ⟨content, formatted⟩ }

end Cache

end Legible
