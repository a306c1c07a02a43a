import Legible.Association
import Legible.Decimal.Double
/-!
JSON values. Whole numbers are unbounded and apart from fractions; an object keeps its members in the
order of their first appearance.
-/

namespace Legible

/-- A JSON value. -/
inductive Json where
  | null
  | bool (value : Bool)
  | int (value : Int)
  | float (value : Double)
  | str (value : Text)
  | arr (items : List Json)
  | obj (members : List (Text × Json))

namespace Json

instance : Inhabited Json := ⟨null⟩

/-- The member of an object; other values have none. -/
def get? (name : Text) : Json → Option Json
  | obj members => Association.lookup members name
  | _ => none

/-- The member of an object, or null where there is none. -/
def member (name : Text) (j : Json) : Json := (j.get? name).getD null

/-- The value is null. -/
def isNull : Json → Bool
  | null => true
  | _ => false

/-- The text of a value that is one. -/
def text? : Json → Option Text
  | str t => some t
  | _ => none

/-- The number of a value that is a whole one. -/
def int? : Json → Option Int
  | int n => some n
  | _ => none

/-- The truth value of a value that is one. -/
def bool? : Json → Option Bool
  | bool b => some b
  | _ => none

/-- The items of an array; other values have none. -/
def toItems : Json → List Json
  | arr vs => vs
  | _ => []

/-- The members of an object; other values have none. -/
def toMembers : Json → List (Text × Json)
  | obj ms => ms
  | _ => []

end Json

end Legible
