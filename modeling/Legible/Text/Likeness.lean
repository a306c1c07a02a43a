import Legible.Text.Basic
/-!
How alike two texts are: the share of their characters that stand in common blocks. The longest common
block counts first, and then, left and right of it, the longest ones there.
-/

namespace Legible.Text

/-- The length of the common start. -/
def commonStart : Text → Text → Nat
  | c :: r, d :: s => if c = d then commonStart r s + 1 else 0
  | _, _ => 0

/-- A common block: where it starts in each text, and how long it is. -/
structure Block where
  left : Nat
  right : Nat
  size : Nat
deriving DecidableEq, Repr

/-- The blocks that start at a place of the first text, one for each place of the second. -/
def blocksAt (left : Nat) (t : Text) : Nat → Text → List Block
  | _, [] => []
  | right, d :: s => ⟨left, right, commonStart t (d :: s)⟩ :: blocksAt left t (right + 1) s

/-- All common blocks by where they start. -/
def blocksFrom (u : Text) : Nat → Text → List Block
  | _, [] => []
  | left, c :: r => blocksAt left (c :: r) 0 u ++ blocksFrom u (left + 1) r

/-- The longest common block; of several, the one that starts first. -/
def longestBlock (t u : Text) : Block :=
  (blocksFrom u 0 t).foldl (fun best b => if best.size < b.size then b else best) ⟨0, 0, 0⟩

/-- How many characters stand in common blocks. -/
def alike (t u : Text) : Nat :=
  match longestBlock t u with
  | ⟨left, right, size⟩ =>
    if _h : 0 < size ∧ left + size ≤ t.length then
      size + alike (t.take left) (u.take right) + alike (t.drop (left + size)) (u.drop (right + size))
    else 0
termination_by t.length
decreasing_by
  · simp only [List.length_take]; omega
  · simp only [List.length_drop]; omega

/-- Three fifths of the characters of both texts are common. -/
def isClose (word candidate : Text) : Bool :=
  3 * (candidate.length + word.length) ≤ 10 * alike candidate word

/-- The first candidate has the greater share in common with the word; of equal shares, it is the later
text in order. -/
def closerThan (word a b : Text) : Bool :=
  let x := alike a word * (b.length + word.length)
  let y := alike b word * (a.length + word.length)
  y < x || (x = y && !a.lt b)

/-- The three candidates that are closest to a word, in the order of texts. -/
def closest (word : Text) (candidates : List Text) : List Text :=
  (((candidates.filter (isClose word)).mergeSort (closerThan word)).take 3).mergeSort fun a b => !b.lt a

end Legible.Text
