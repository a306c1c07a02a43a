/-!
Pairs of a key and a value in the order in which the keys came first, each key once.
-/

namespace Legible.Association

variable {κ α : Type} [DecidableEq κ]

/-- The value of a key. -/
def lookup (pairs : List (κ × α)) (key : κ) : Option α := (pairs.find? (·.1 = key)).map (·.2)

/-- The key has a value. -/
def has (pairs : List (κ × α)) (key : κ) : Bool := pairs.any (·.1 = key)

/-- Sets the value of a key: in its place where the key is known, else at the end. -/
def assign (pairs : List (κ × α)) (key : κ) (value : α) : List (κ × α) :=
  match pairs with
  | [] => [(key, value)]
  | (k, v) :: r => if k = key then (k, value) :: r else (k, v) :: assign r key value

theorem lookup_cons (p : κ × α) (r : List (κ × α)) (key : κ) :
    lookup (p :: r) key = if p.1 = key then some p.2 else lookup r key := by
  by_cases h : p.1 = key <;> simp [lookup, h]

@[simp] theorem lookup_assign_self (pairs : List (κ × α)) (key : κ) (value : α) :
    lookup (assign pairs key value) key = some value := by
  induction pairs with
  | nil => simp [assign, lookup_cons]
  | cons p r ih => by_cases h : p.1 = key <;> simp [assign, lookup_cons, h, ih]

theorem lookup_assign_of_ne {key other : κ} (h : key ≠ other) (pairs : List (κ × α)) (value : α) :
    lookup (assign pairs key value) other = lookup pairs other := by
  induction pairs with
  | nil => simp [assign, lookup_cons, h]
  | cons p r ih => by_cases hp : p.1 = key <;> simp [assign, lookup_cons, hp, h, ih]

theorem length_assign_le (pairs : List (κ × α)) (key : κ) (value : α) :
    (assign pairs key value).length ≤ pairs.length + 1 := by
  induction pairs with
  | nil => simp [assign]
  | cons p r ih => by_cases h : p.1 = key <;> simp [assign, h, ih]

end Legible.Association
