import Legible.Json.Basic
import Legible.Toml.Basic
/-!
JSON values as TOML values: null stands for a key without a value.
-/

namespace Legible.Toml

mutual

/-- The TOML value of a JSON value. -/
def ofJson : Json → Toml
  | .null => .absent
  | .bool b => .bool b
  | .int n => .int n
  | .float d => .float d
  | .str t => .str t
  | .arr vs => .arr (ofItems vs)
  | .obj ms => .table (ofMembers ms)

/-- The TOML values of the items of an array. -/
def ofItems : List Json → List Toml
  | [] => []
  | v :: r => ofJson v :: ofItems r

/-- The TOML values of the members of an object. -/
def ofMembers : List (Text × Json) → List (Text × Toml)
  | [] => []
  | (n, v) :: r => (n, ofJson v) :: ofMembers r

end

end Legible.Toml
