import Legible.Text.Blank
import Mathlib.Data.List.Infix
import Mathlib.Data.List.TakeWhile
/-!
# Patterns of characters

A pattern is a row of pieces, each of which stands for one character of a class or for any number of them. It is tried
from left to right, and what a piece has taken is taken back one way after the other as long as the pieces behind it
find nothing (`Pattern.rests`). The order of these trials decides which match comes first, and not whether there is
one: that is a matter of how the text can be cut (`Pattern.opens_cons`, `Pattern.occurs_iff`).
-/

namespace Legible

/-- A piece of a pattern. -/
inductive Piece where
  /-- One character of a class. -/
  | one (p : CodePoint → Bool)
  /-- Characters of a class, as many as will do. -/
  | many (p : CodePoint → Bool)
  /-- Characters of a class, as few as will do. -/
  | few (p : CodePoint → Bool)

namespace Piece

/-- A character and no other. -/
def char (c : CodePoint) : Piece := one (· = c)

/-- What is left of a text behind characters of a class, with the most of them taken first. -/
def leftBehind (p : CodePoint → Bool) : Text → List Text
  | [] => [[]]
  | c :: r => if p c then leftBehind p r ++ [c :: r] else [c :: r]

/-- What the piece may leave of a text, in the order in which it is tried. -/
def rests : Piece → Text → List Text
  | one _, [] => []
  | one p, c :: r => if p c then [r] else []
  | many p, t => leftBehind p t
  | few p, t => (leftBehind p t).reverse

/-- The texts that the piece stands for. -/
def Fits : Piece → Text → Prop
  | one p, u => ∃ c, p c = true ∧ u = [c]
  | many p, u => ∀ c ∈ u, p c = true
  | few p, u => ∀ c ∈ u, p c = true

theorem mem_leftBehind_iff {p : CodePoint → Bool} {t r : Text} :
    r ∈ leftBehind p t ↔ ∃ u, (∀ c ∈ u, p c = true) ∧ t = u ++ r := by
  induction t with
  | nil => simp [leftBehind]
  | cons c t ih =>
    -- either nothing is taken, or the first character and then some of the others
    have hcut : (∃ u, (∀ d ∈ u, p d = true) ∧ c :: t = u ++ r) ↔
        r = c :: t ∨ p c = true ∧ ∃ u, (∀ d ∈ u, p d = true) ∧ t = u ++ r := by
      constructor
      · rintro ⟨u, hu, h⟩
        cases u with
        | nil => exact .inl h.symm
        | cons d u =>
          obtain ⟨rfl, rfl⟩ := List.cons.inj h
          obtain ⟨hc, hu⟩ := List.forall_mem_cons.mp hu
          exact .inr ⟨hc, u, hu, rfl⟩
      · rintro (rfl | ⟨hc, u, hu, rfl⟩)
        · exact ⟨[], by simp, rfl⟩
        · exact ⟨c :: u, List.forall_mem_cons.mpr ⟨hc, hu⟩, rfl⟩
    rw [hcut, ← ih]
    by_cases hc : p c = true
    · simp [leftBehind, hc, or_comm]
    · simp [leftBehind, hc]

theorem mem_rests_iff (x : Piece) {t r : Text} : r ∈ x.rests t ↔ ∃ u, x.Fits u ∧ t = u ++ r := by
  cases x with
  | one p =>
    cases t with
    | nil => simp [rests, Fits]
    | cons c t =>
      have hcut : (∃ u, (∃ d, p d = true ∧ u = [d]) ∧ c :: t = u ++ r) ↔ p c = true ∧ r = t := by
        constructor
        · rintro ⟨_, ⟨d, hd, rfl⟩, h⟩
          obtain ⟨rfl, rfl⟩ := List.cons.inj h
          exact ⟨hd, rfl⟩
        · rintro ⟨hc, rfl⟩
          exact ⟨[c], ⟨c, hc, rfl⟩, rfl⟩
      by_cases hc : p c = true <;> simp [rests, Fits, hcut, hc]
  | many p => exact mem_leftBehind_iff
  | few p => exact List.mem_reverse.trans mem_leftBehind_iff

end Piece

/-- Pieces one behind the other. -/
abbrev Pattern := List Piece

namespace Pattern

variable {t : Text}

/-- What a match may leave of a text, in the order in which it is tried. -/
def rests : Pattern → Text → List Text
  | [], t => [t]
  | x :: xs, t => (x.rests t).flatMap (rests xs)

/-- The pattern matches at the start of the text. -/
def opens (xs : Pattern) (t : Text) : Bool := !(rests xs t).isEmpty

/-- The pattern matches at some place of the text. -/
def occurs (xs : Pattern) (t : Text) : Bool := t.tails.any xs.opens

@[simp] theorem opens_nil (t : Text) : opens [] t = true := rfl

theorem opens_cons (x : Piece) (xs : Pattern) :
    opens (x :: xs) t = true ↔ ∃ u r, x.Fits u ∧ t = u ++ r ∧ xs.opens r = true := by
  have hopens (ys : Pattern) (s : Text) : ys.opens s = true ↔ ∃ r, r ∈ ys.rests s := by
    rw [opens, Bool.not_eq_true', List.isEmpty_eq_false_iff_exists_mem]
  simp only [hopens, rests, List.mem_flatMap, x.mem_rests_iff]
  constructor
  · rintro ⟨r, s, ⟨u, hu, ht⟩, hr⟩
    exact ⟨u, s, hu, ht, r, hr⟩
  · rintro ⟨u, s, hu, ht, r, hr⟩
    exact ⟨r, s, ⟨u, hu, ht⟩, hr⟩

theorem opens_one (p : CodePoint → Bool) (xs : Pattern) :
    opens (.one p :: xs) t = true ↔ ∃ c r, p c = true ∧ t = c :: r ∧ xs.opens r = true := by
  rw [opens_cons]
  constructor
  · rintro ⟨_, r, ⟨c, hc, rfl⟩, rfl, hr⟩
    exact ⟨c, r, hc, rfl, hr⟩
  · rintro ⟨c, r, hc, rfl, hr⟩
    exact ⟨[c], r, ⟨c, hc, rfl⟩, rfl, hr⟩

theorem opens_many (p : CodePoint → Bool) (xs : Pattern) :
    opens (.many p :: xs) t = true ↔ ∃ u r, (∀ c ∈ u, p c = true) ∧ t = u ++ r ∧ xs.opens r = true :=
  opens_cons ..

theorem opens_few (p : CodePoint → Bool) (xs : Pattern) :
    opens (.few p :: xs) t = true ↔ ∃ u r, (∀ c ∈ u, p c = true) ∧ t = u ++ r ∧ xs.opens r = true :=
  opens_cons ..

theorem opens_char (c : CodePoint) (xs : Pattern) :
    opens (.char c :: xs) t = true ↔ ∃ r, t = c :: r ∧ xs.opens r = true := by
  simp [Piece.char, opens_one]

/-- As many characters as there are have to be taken where no fewer will do: what comes behind them begins with no
character of their class. -/
theorem opens_many_iff_dropWhile {p : CodePoint → Bool} {xs : Pattern}
    (hxs : ∀ r, xs.opens r = true → ∃ c ∈ r.head?, p c = false) :
    opens (.many p :: xs) t = true ↔ xs.opens (t.dropWhile p) = true := by
  rw [opens_many]
  constructor
  · rintro ⟨u, r, hu, rfl, hr⟩
    obtain ⟨c, hc, hpc⟩ := hxs r hr
    obtain ⟨s, rfl⟩ := List.head?_eq_some_iff.mp hc
    rwa [List.dropWhile_append_of_pos hu, List.dropWhile_cons_of_neg (by simp [hpc])]
  · intro h
    exact ⟨t.takeWhile p, t.dropWhile p, fun c hc => List.mem_takeWhile_imp hc,
      List.takeWhile_append_dropWhile.symm, h⟩

/-- The characters of a text, one behind the other. -/
def word (q : Text) : Pattern := q.map .char

theorem opens_word {q : Text} : opens (word q) t = true ↔ ∃ r, t = q ++ r := by
  induction q generalizing t with
  | nil => simp [word]
  | cons c q ih =>
    rw [word, List.map_cons, ← word, opens_char]
    simp only [ih]
    constructor
    · rintro ⟨_, rfl, r, rfl⟩
      exact ⟨r, rfl⟩
    · rintro ⟨r, rfl⟩
      exact ⟨q ++ r, rfl, r, rfl⟩

/-- A pattern occurs where it opens what is left behind some part of the text. -/
theorem occurs_iff (xs : Pattern) : xs.occurs t = true ↔ ∃ a r, t = a ++ r ∧ xs.opens r = true := by
  simp only [occurs, List.any_eq_true, List.mem_tails]
  constructor
  · rintro ⟨r, ⟨a, rfl⟩, hr⟩
    exact ⟨a, r, rfl, hr⟩
  · rintro ⟨a, r, rfl, hr⟩
    exact ⟨r, ⟨a, rfl⟩, hr⟩

/-- The search goes on with the next place where the pattern does not match at the first one. -/
theorem occurs_cons (xs : Pattern) (c : CodePoint) (t : Text) :
    xs.occurs (c :: t) = (xs.opens (c :: t) || xs.occurs t) := by
  simp [occurs]

/-- What a pattern finds stays where it is, whatever comes behind the text. -/
theorem opens_append {xs : Pattern} (h : xs.opens t = true) (s : Text) : xs.opens (t ++ s) = true := by
  induction xs generalizing t with
  | nil => rfl
  | cons x xs ih =>
    obtain ⟨u, r, hu, rfl, hr⟩ := (opens_cons x xs).mp h
    exact (opens_cons x xs).mpr ⟨u, r ++ s, hu, List.append_assoc .., ih hr⟩

theorem occurs_append {xs : Pattern} (h : xs.occurs t = true) (s : Text) : xs.occurs (t ++ s) = true := by
  obtain ⟨a, r, rfl, hr⟩ := (occurs_iff xs).mp h
  exact (occurs_iff xs).mpr ⟨a, r ++ s, List.append_assoc .., opens_append hr s⟩

end Pattern

end Legible
