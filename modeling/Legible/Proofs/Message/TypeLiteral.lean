import Legible.Message.TypeLiteral
import Legible.Proofs.Text.Pattern
/-!
# What is taken for a type

A quoted span is taken for a type if it is long enough, starts like one and has the shape of one somewhere. Each of
these tests is that of a pattern (`startsLikeType_iff_opens`, `hasTypeShape_iff_occurs`): that a name and white space
are read as far as they go, and never shorter, makes no difference, as none of their characters can be one of what
follows them. And each of them is a matter of how the text can be cut (`startsLikeType_iff`, `hasTypeShape_iff`).

So what is found is not undone by anything behind it, and a type that is written on is still one.
-/

namespace Legible

theorem CodePoint.isBlank_of_isLetter {c : CodePoint} (h : c.isLetter = true) : c.isBlank = false := by
  have hrange : 65 ≤ c.val ∧ c.val ≤ 122 := by
    simp only [isLetter, isUpper, isLower, within, Bool.or_eq_true, Bool.and_eq_true, decide_eq_true_eq] at h
    change (65 ≤ c.val ∧ c.val ≤ 90) ∨ 97 ≤ c.val ∧ c.val ≤ 122 at h
    omega
  simp only [isBlank, Bool.or_eq_false_iff, Bool.and_eq_false_iff, decide_eq_false_iff_not]
  omega

namespace Message

open Pattern

variable {t : Text}

/-! ## The patterns -/

/-- A capitalised name and an angle bracket. -/
def genericHead : Pattern := .one CodePoint.isUpper :: .many isNameChar :: word "<"

/-- A name in small letters, white space and an arrow. -/
def arrowHead : Pattern :=
  .one CodePoint.isLower :: .many CodePoint.isLower :: .many CodePoint.isBlank :: word "=>"

/-- A bracket, white space and a small letter. -/
def parameterHead : Pattern := [.char '(', .many CodePoint.isBlank, .one CodePoint.isLower]

/-- A colon, white space and a letter. -/
def typedName : Pattern := [.char ':', .many CodePoint.isBlank, .one CodePoint.isLetter]

/-- A brace, as few characters as will do, line ends among them, and its counterpart. -/
def braces : Pattern := [.char '{', .few fun _ => true, .char '}']

/-- The mark of a union or an intersection. -/
def eitherMark : Pattern := [.one fun c => c = '|' || c = '&']

def arrow : Pattern := word "=>"

/-- The patterns that may open a type which no bracket opens. -/
def headPatterns : List Pattern := [genericHead, arrowHead, parameterHead]

/-- The patterns one of which occurs in a type. -/
def shapePatterns : List Pattern := [typedName, braces, eitherMark, arrow]

/-! ## The tests are patterns -/

theorem startsWith_iff_opens {q : Text} : t.startsWith q = true ↔ (word q).opens t = true := by
  rw [Text.startsWith, List.isPrefixOf_iff_prefix, opens_word]
  exact exists_congr fun r => eq_comm

theorem hasGenericHead_iff : hasGenericHead t = true ↔ genericHead.opens t = true := by
  -- the angle bracket is no part of a name
  have hend : ∀ r, (word "<").opens r = true → ∃ c ∈ r.head?, isNameChar c = false := by
    intro r hr
    obtain ⟨s, rfl⟩ := opens_word.mp hr
    exact ⟨_, rfl, by decide⟩
  cases t with
  | nil => simp [hasGenericHead, genericHead, opens_one]
  | cons c r =>
    rw [hasGenericHead, genericHead, opens_one, Bool.and_eq_true, startsWith_iff_opens]
    simp [opens_many_iff_dropWhile hend]

theorem hasArrowHead_iff : hasArrowHead t = true ↔ arrowHead.opens t = true := by
  have harrow : ∀ r, (word "=>").opens r = true → ∃ c ∈ r.head?, c.isBlank = false := by
    intro r hr
    obtain ⟨s, rfl⟩ := opens_word.mp hr
    exact ⟨_, rfl, by decide⟩
  -- white space and the arrow are no part of a name
  have hend : ∀ r, opens (.many CodePoint.isBlank :: word "=>") r = true →
      ∃ c ∈ r.head?, CodePoint.isLower c = false := by
    intro r hr
    obtain ⟨u, s, hu, rfl, hs⟩ := (opens_many ..).mp hr
    cases u with
    | nil =>
      obtain ⟨s, rfl⟩ := opens_word.mp hs
      exact ⟨_, rfl, by decide⟩
    | cons b u =>
      refine ⟨b, rfl, ?_⟩
      by_contra hb
      have hletter : b.isLetter = true := by simp [CodePoint.isLetter, Bool.not_eq_false _ ▸ hb]
      simpa [CodePoint.isBlank_of_isLetter hletter] using hu b List.mem_cons_self
  cases t with
  | nil => simp [hasArrowHead, arrowHead, opens_one, List.span_eq_takeWhile_dropWhile]
  | cons c r =>
    have hcut : hasArrowHead (c :: r) = true ↔
        c.isLower = true ∧ Text.startsWith (Text.trimStart (r.dropWhile CodePoint.isLower)) "=>" = true := by
      by_cases hc : c.isLower = true <;> simp [hasArrowHead, List.span_eq_takeWhile_dropWhile, hc]
    rw [hcut, arrowHead, opens_one, Text.trimStart, startsWith_iff_opens]
    simp [opens_many_iff_dropWhile harrow, opens_many_iff_dropWhile hend]

theorem hasAnnotation_iff : hasAnnotation t = true ↔ typedName.occurs t = true := by
  have hend : ∀ r, opens [.one CodePoint.isLetter] r = true → ∃ c ∈ r.head?, c.isBlank = false := by
    intro r hr
    obtain ⟨c, s, hc, rfl, -⟩ := (opens_one ..).mp hr
    exact ⟨c, rfl, CodePoint.isBlank_of_isLetter hc⟩
  induction t with
  | nil => simp [occurs, hasAnnotation, typedName, opens_char]
  | cons c r ih =>
    have hopens : typedName.opens (c :: r) = true ↔
        c = CodePoint.ofChar ':' ∧ opens [.one CodePoint.isLetter] (Text.trimStart r) = true := by
      rw [typedName, opens_char, Text.trimStart, ← opens_many_iff_dropWhile hend]
      simp
    rw [ hasAnnotation, occurs_cons, Bool.or_eq_true, Bool.or_eq_true, hopens]
    apply or_congr _ ih
    cases Text.trimStart r <;> simp [opens_one]

theorem hasBraces_iff : hasBraces t = true ↔ braces.occurs t = true := by
  induction t with
  | nil => simp [hasBraces, occurs, braces, opens_char]
  | cons c r ih =>
    have hany : r.any (· = CodePoint.ofChar '}') = true ↔ ∃ u s, r = u ++ CodePoint.ofChar '}' :: s := by
      rw [← List.mem_iff_append]
      simp
    rw [hasBraces, occurs_cons, Bool.or_eq_true, Bool.or_eq_true]
    apply or_congr _ ih
    rw [Bool.and_eq_true, hany, braces, opens_char]
    simp [opens_few, opens_char]

theorem anyMark_iff : t.any (fun c => c = '|' || c = '&') = true ↔ eitherMark.occurs t = true := by
  induction t with
  | nil => simp [occurs, eitherMark, opens_one]
  | cons c r ih =>
    rw [List.any_cons, occurs_cons, Bool.or_eq_true, Bool.or_eq_true (eitherMark.opens _)]
    apply or_congr _ ih
    rw [eitherMark, opens_one]
    simp

theorem contains_iff_occurs {q : Text} : t.contains q = true ↔ (word q).occurs t = true := by
  induction t with
  | nil => cases q <;> simp [Text.contains, occurs, word, opens_char]
  | cons c r ih =>
    rw [Text.contains, occurs_cons, Bool.or_eq_true, Bool.or_eq_true]
    exact or_congr startsWith_iff_opens ih

/-! ## The tests in words -/

/-- The text begins with one of the opening brackets of types. -/
def StartsWithOpener (t : Text) : Prop := ∃ c r, t = c :: r ∧ (c = '{' ∨ c = '[' ∨ c = '(')

/-- The text begins with a capital, any number of letters, digits and underscores, and an angle bracket. -/
def StartsWithGeneric (t : Text) : Prop :=
  ∃ (c : CodePoint) (name r : Text), c.isUpper = true ∧ (∀ x ∈ name, isNameChar x = true) ∧
    t = c :: (name ++ ("<" ++ r))

/-- The text begins with small letters, at least one, any white space and an arrow. -/
def StartsWithArrow (t : Text) : Prop :=
  ∃ name blanks r : Text, name ≠ [] ∧ (∀ x ∈ name, x.isLower = true) ∧ (∀ x ∈ blanks, x.isBlank = true) ∧
    t = name ++ (blanks ++ ("=>" ++ r))

/-- A colon, any white space and a letter stand in the text. -/
def HoldsAnnotation (t : Text) : Prop :=
  ∃ (a blanks : Text) (c : CodePoint) (r : Text), (∀ x ∈ blanks, x.isBlank = true) ∧ c.isLetter = true ∧
    t = a ++ CodePoint.ofChar ':' :: (blanks ++ c :: r)

/-- A brace stands in the text, and anywhere behind it a closing one. -/
def HoldsBraces (t : Text) : Prop :=
  ∃ a b r : Text, t = a ++ CodePoint.ofChar '{' :: (b ++ CodePoint.ofChar '}' :: r)

theorem hasOpener_iff : hasOpener t = true ↔ StartsWithOpener t := by
  cases t with
  | nil => simp [hasOpener, StartsWithOpener]
  | cons c r => simp [hasOpener, StartsWithOpener, or_assoc]

theorem opens_genericHead_iff : genericHead.opens t = true ↔ StartsWithGeneric t := by
  simp only [genericHead, opens_one, opens_many, opens_word]
  constructor
  · rintro ⟨c, _, hc, rfl, name, _, hname, rfl, r, rfl⟩
    exact ⟨c, name, r, hc, hname, rfl⟩
  · rintro ⟨c, name, r, hc, hname, rfl⟩
    exact ⟨c, _, hc, rfl, name, _, hname, rfl, r, rfl⟩

theorem opens_arrowHead_iff : arrowHead.opens t = true ↔ StartsWithArrow t := by
  simp only [arrowHead, opens_one, opens_many, opens_word]
  constructor
  · rintro ⟨c, _, hc, rfl, name, _, hname, rfl, blanks, _, hblanks, rfl, r, rfl⟩
    exact ⟨c :: name, blanks, r, by simp, List.forall_mem_cons.mpr ⟨hc, hname⟩, hblanks, rfl⟩
  · rintro ⟨name, blanks, r, hne, hname, hblanks, rfl⟩
    obtain ⟨c, name, rfl⟩ := List.exists_cons_of_ne_nil hne
    obtain ⟨hc, hname⟩ := List.forall_mem_cons.mp hname
    exact ⟨c, _, hc, rfl, name, _, hname, rfl, blanks, _, hblanks, rfl, r, rfl⟩

/-- A list of parameters begins with a bracket, which is enough without it. -/
theorem startsWithOpener_of_parameterHead (h : parameterHead.opens t = true) : StartsWithOpener t := by
  obtain ⟨r, rfl, -⟩ := (opens_char ..).mp h
  exact ⟨_, r, rfl, by simp⟩

theorem occurs_typedName_iff : typedName.occurs t = true ↔ HoldsAnnotation t := by
  simp only [occurs_iff, typedName, opens_char, opens_many, opens_one]
  constructor
  · rintro ⟨a, _, rfl, _, rfl, blanks, _, hblanks, rfl, c, r, hc, rfl, -⟩
    exact ⟨a, blanks, c, r, hblanks, hc, rfl⟩
  · rintro ⟨a, blanks, c, r, hblanks, hc, rfl⟩
    exact ⟨a, _, rfl, _, rfl, blanks, _, hblanks, rfl, c, r, hc, rfl, rfl⟩

theorem occurs_braces_iff : braces.occurs t = true ↔ HoldsBraces t := by
  simp only [occurs_iff, braces, opens_char, opens_few]
  constructor
  · rintro ⟨a, _, rfl, _, rfl, b, _, -, rfl, r, rfl, -⟩
    exact ⟨a, b, r, rfl⟩
  · rintro ⟨a, b, r, rfl⟩
    exact ⟨a, _, rfl, _, rfl, b, _, fun _ _ => trivial, rfl, r, rfl, rfl⟩

/-! ## Types -/

theorem startsLikeType_iff :
    startsLikeType t = true ↔ StartsWithOpener t ∨ StartsWithGeneric t ∨ StartsWithArrow t := by
  rw [startsLikeType, Bool.or_eq_true, Bool.or_eq_true, or_assoc, hasOpener_iff, hasGenericHead_iff, hasArrowHead_iff,
    opens_genericHead_iff, opens_arrowHead_iff]

theorem startsLikeType_iff_opens :
    startsLikeType t = true ↔ StartsWithOpener t ∨ ∃ p ∈ headPatterns, p.opens t = true := by
  rw [startsLikeType_iff]
  simp only [headPatterns, List.mem_cons, List.not_mem_nil, or_false, exists_eq_or_imp, exists_eq_left,
    opens_genericHead_iff, opens_arrowHead_iff]
  constructor
  · rintro (h | h | h)
    · exact .inl h
    · exact .inr (.inl h)
    · exact .inr (.inr (.inl h))
  · rintro (h | h | h | h)
    · exact .inl h
    · exact .inr (.inl h)
    · exact .inr (.inr h)
    · exact .inl (startsWithOpener_of_parameterHead h)

theorem hasTypeShape_iff_occurs : hasTypeShape t = true ↔ ∃ p ∈ shapePatterns, p.occurs t = true := by
  rw [hasTypeShape, Bool.or_eq_true _ (Text.contains ..), Bool.or_eq_true _ (List.any ..),
    Bool.or_eq_true _ (hasBraces t), hasAnnotation_iff, hasBraces_iff, anyMark_iff, contains_iff_occurs]
  simp [shapePatterns, arrow, or_assoc]

theorem hasTypeShape_iff : hasTypeShape t = true ↔
    CodePoint.ofChar '|' ∈ t ∨ CodePoint.ofChar '&' ∈ t ∨ ("=>" : Text) <:+: t ∨ HoldsBraces t ∨
      HoldsAnnotation t := by
  have hmarks : eitherMark.occurs t = true ↔ CodePoint.ofChar '|' ∈ t ∨ CodePoint.ofChar '&' ∈ t := by
    rw [← anyMark_iff, List.any_eq_true]
    simp [and_or_left, exists_or]
  have harrow : arrow.occurs t = true ↔ ("=>" : Text) <:+: t := by
    simp only [arrow, occurs_iff, opens_word]
    constructor
    · rintro ⟨a, _, rfl, r, rfl⟩
      exact ⟨a, r, List.append_assoc ..⟩
    · rintro ⟨a, r, rfl⟩
      exact ⟨a, _, List.append_assoc .., r, rfl⟩
  rw [hasTypeShape_iff_occurs]
  simp only [shapePatterns, List.mem_cons, List.not_mem_nil, or_false, exists_eq_or_imp, exists_eq_left,
    occurs_typedName_iff, occurs_braces_iff, hmarks, harrow]
  tauto

theorem startsWithOpener_append (h : StartsWithOpener t) (s : Text) : StartsWithOpener (t ++ s) := by
  obtain ⟨c, r, rfl, hc⟩ := h
  exact ⟨c, r ++ s, rfl, hc⟩

theorem isTypeLiteral_iff :
    isTypeLiteral t = true ↔ 30 ≤ t.length ∧ startsLikeType t = true ∧ hasTypeShape t = true := by
  rw [isTypeLiteral, Bool.and_eq_true, Bool.and_eq_true, decide_eq_true_eq, and_assoc, minTypeLength]

/-- What a text is taken for is what the patterns of types tell of it, or in words, how it starts and what stands
somewhere in it. A type that is written on is still one. -/
theorem types_are_told_by_patterns (t : Text) :
    (startsLikeType t = true ↔ StartsWithOpener t ∨ ∃ p ∈ headPatterns, p.opens t = true) ∧
    (startsLikeType t = true ↔ StartsWithOpener t ∨ StartsWithGeneric t ∨ StartsWithArrow t) ∧
    (hasTypeShape t = true ↔ ∃ p ∈ shapePatterns, p.occurs t = true) ∧
    (hasTypeShape t = true ↔ CodePoint.ofChar '|' ∈ t ∨ CodePoint.ofChar '&' ∈ t ∨ ("=>" : Text) <:+: t ∨
      HoldsBraces t ∨ HoldsAnnotation t) ∧
    (isTypeLiteral t = true ↔ 30 ≤ t.length ∧ startsLikeType t = true ∧ hasTypeShape t = true) ∧
    (isTypeLiteral t = true → ∀ s, isTypeLiteral (t ++ s) = true) := by
  refine ⟨startsLikeType_iff_opens, startsLikeType_iff, hasTypeShape_iff_occurs, hasTypeShape_iff, isTypeLiteral_iff,
    ?_⟩
  intro h s
  obtain ⟨hlen, hstart, hshape⟩ := isTypeLiteral_iff.mp h
  apply isTypeLiteral_iff.mpr
  refine ⟨?_, ?_, ?_⟩
  · rw [List.length_append]
    omega
  · apply startsLikeType_iff_opens.mpr
    rcases startsLikeType_iff_opens.mp hstart with hopener | ⟨p, hp, hopens⟩
    · exact .inl (startsWithOpener_append hopener s)
    · exact .inr ⟨p, hp, opens_append hopens s⟩
  · obtain ⟨p, hp, hoccurs⟩ := hasTypeShape_iff_occurs.mp hshape
    exact hasTypeShape_iff_occurs.mpr ⟨p, hp, occurs_append hoccurs s⟩

/-- A type is one whatever is written behind it. -/
theorem written_on_object_is_a_type :
    isTypeLiteral "{ a: string; b: number; c: boolean }" = true ∧
      ∀ s, isTypeLiteral ("{ a: string; b: number; c: boolean }" ++ s) = true := by
  have h : isTypeLiteral "{ a: string; b: number; c: boolean }" = true := by decide +kernel
  exact ⟨h, (types_are_told_by_patterns _).2.2.2.2.2 h⟩

end Message

end Legible
