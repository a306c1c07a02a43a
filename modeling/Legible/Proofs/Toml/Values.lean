import Legible.Toml.Reader
import Legible.Toml.Shown
import Legible.Toml.Writer
import Mathlib.Data.List.TakeWhile
import Mathlib.Tactic.SplitIfs
/-!
# Values read back

A text, a whole number that may be written, a truth value and an array of those are read from what is written of them,
whatever stands behind. What follows a text must not be a quote, and what follows a number must end it.
-/

namespace Legible

theorem CodePoint.ofNat_val (c : CodePoint) : ofNat c.val = c := by
  simp [ofNat, ofNat?, c.lt]

namespace Text

theorem length_hex (width n : Nat) : (hex width n).length = width := by
  induction width generalizing n with
  | zero => rfl
  | succ width ih => rw [hex, List.length_append, ih, List.length_singleton]

/-! ## Digits -/

/-- The values of the digits of a text. -/
def digitValues (t : Text) : List Nat := t.map (·.val - 48)

theorem ofNat_eq (n : Nat) : ofNat n = (Nat.toDigits 10 n).map CodePoint.ofChar := by
  rw [ofNat, ofString, Nat.toString_eq_repr, Nat.repr_eq_ofList_toDigits, String.toList_ofList]

theorem ofNat_ne_nil (n : Nat) : ofNat n ≠ [] := by
  rw [ofNat_eq]
  exact fun h => Nat.toDigits_ne_nil (List.map_eq_nil_iff.mp h)

theorem isAsciiDigit_of_mem_ofNat {n : Nat} {c : CodePoint} (hc : c ∈ ofNat n) : c.isAsciiDigit = true := by
  rw [ofNat_eq] at hc
  obtain ⟨d, hd, rfl⟩ := List.mem_map.mp hc
  have hdigit := Nat.isDigit_of_mem_toDigits (by decide) (by decide) hd
  simp only [Char.isDigit, Bool.and_eq_true, decide_eq_true_eq] at hdigit
  exact Bool.and_eq_true_iff.mpr ⟨decide_eq_true (UInt32.le_iff_toNat_le.mp hdigit.1),
    decide_eq_true (UInt32.le_iff_toNat_le.mp hdigit.2)⟩

theorem digitValues_digit {d : Nat} (hd : d < 10) : digitValues [CodePoint.ofChar d.digitChar] = [d] := by
  have hall : ∀ d < 10, digitValues [CodePoint.ofChar d.digitChar] = [d] := by decide
  exact hall d hd

/-- The digits of a number have its value, and no zero leads others. -/
theorem value_ofNat (n : Nat) : Numeral.value (digitValues (ofNat n)) = n ∧
    (n ≠ 0 → (digitValues (ofNat n)).head? ≠ some 0) := by
  induction n using Nat.strongRecOn with
  | ind n ih =>
    have hdigits := Nat.toDigits_eq_if (b := 10) (n := n) (by decide)
    split at hdigits
    · rename_i hlt
      rw [ofNat_eq, hdigits, List.map_singleton, digitValues_digit hlt]
      exact ⟨by simp [Numeral.value], by simp⟩
    · rename_i hge
      obtain ⟨hvalue, hhead⟩ := ih (n / 10) (by omega)
      have hcut : digitValues (ofNat n) = digitValues (ofNat (n / 10)) ++ [n % 10] := by
        rw [ofNat_eq, hdigits, List.map_append, List.map_singleton, ofNat_eq, digitValues, List.map_append]
        exact congrArg (_ ++ ·) (digitValues_digit (Nat.mod_lt n (by decide)))
      have hfold : Numeral.value (digitValues (ofNat (n / 10)) ++ [n % 10]) = 10 * (n / 10) + n % 10 := by
        rw [Numeral.value, List.foldl_append]
        exact congrArg (10 * · + n % 10) hvalue
      refine ⟨by rw [hcut, hfold]; omega, fun _ => ?_⟩
      have hsome : (digitValues (ofNat (n / 10))).head?.isSome = true := by
        rw [List.isSome_head?, digitValues, ne_eq, List.map_eq_nil_iff]
        exact ofNat_ne_nil (n / 10)
      rw [hcut, List.head?_append, Option.or_of_isSome hsome]
      exact hhead (by omega)

theorem length_ofNat_le {n width : Nat} (hwidth : 0 < width) : (ofNat n).length ≤ width ↔ n < Nat.pow 10 width := by
  rw [ofNat_eq, List.length_map]
  exact Nat.length_toDigits_le_iff (by decide) hwidth

end Text

namespace Toml

/-! ## Texts -/

theorem hexChar?_hex {n : Nat} (hn : n < 128) (rest : Text) :
    hexChar? 4 (Text.hex 4 n ++ rest) = some (.ofNat n, rest) := by
  have hlength := Text.length_hex 4 n
  have hall : ∀ n < 128, hexChar? 4 (Text.hex 4 n) = some (.ofNat n, []) := by decide +kernel
  have hone := hall n hn
  simp only [hexChar?, List.take_left' hlength, List.drop_left' hlength, List.take_of_length_le hlength.le] at hone ⊢
  split at hone
  · cases hone
  · rename_i hshort
    obtain ⟨c, hc, heq⟩ := Option.map_eq_some_iff.mp hone
    rw [if_neg hshort, hc, Option.map_some, (Prod.mk.inj heq).1]

theorem stringBody_escape {c : CodePoint} {t rest : Text} (h : escape false t = .ok ([c], rest)) (fuel : Nat)
    (read : Text) :
    stringBody '"' true false (fuel + 1) read (CodePoint.ofChar '\\' :: t) =
      stringBody '"' true false fuel (c :: read) rest := by
  have hcontrol : isControl '\\' = false := by decide
  have hquote : CodePoint.ofChar '\\' ≠ CodePoint.ofChar '"' := by decide
  simp [stringBody, hcontrol, hquote, h]

/-- A character is read from what is written for it. -/
theorem stringBody_escapeChar (fuel : Nat) (read : Text) (c : CodePoint) (rest : Text) :
    stringBody '"' true false (fuel + 1) read (escapeChar c ++ rest) =
      stringBody '"' true false fuel (c :: read) rest := by
  unfold escapeChar
  split_ifs with hquote hslash hlf hcr htab hbackspace hfeed hcontrol
  · subst hquote
    exact stringBody_escape rfl fuel read
  · subst hslash
    exact stringBody_escape rfl fuel read
  · subst hlf
    exact stringBody_escape rfl fuel read
  · subst hcr
    exact stringBody_escape rfl fuel read
  · subst htab
    exact stringBody_escape rfl fuel read
  · rw [← CodePoint.ofNat_val c, hbackspace]
    exact stringBody_escape rfl fuel read
  · rw [← CodePoint.ofNat_val c, hfeed]
    exact stringBody_escape rfl fuel read
  · have hlow : c.val < 128 := by simp only [Bool.or_eq_true, decide_eq_true_eq] at hcontrol; omega
    have hescape : escape false (CodePoint.ofChar 'u' :: (Text.hex 4 c.val ++ rest)) = .ok ([c], rest) := by
      have hhex := hexChar?_hex hlow rest
      rw [CodePoint.ofNat_val] at hhex
      have hletter : hexLength? 'u' = some 4 := by decide
      simp [escape, hletter, hhex]
    exact stringBody_escape hescape fuel read
  · have hplain : isControl c = false := by
      simp only [Bool.or_eq_true, decide_eq_true_eq, not_or, Nat.not_lt] at hcontrol
      simp [isControl, hcontrol.2, Nat.not_lt.mpr hcontrol.1]
    simp [stringBody, hplain, hquote, hslash]

theorem stringBody_quoted {t : Text} {fuel : Nat} (hfuel : t.length < fuel) (read rest : Text) :
    stringBody '"' true false fuel read (t.flatMap escapeChar ++ CodePoint.ofChar '"' :: rest) =
      .ok (read.reverse ++ t, rest) := by
  induction t generalizing fuel read with
  | nil =>
    obtain ⟨fuel, rfl⟩ := Nat.exists_eq_add_one.mpr hfuel
    have hcontrol : isControl '"' = false := by decide
    simp [stringBody, hcontrol]
  | cons c t ih =>
    obtain ⟨fuel, rfl⟩ := Nat.exists_eq_add_one.mpr (Nat.zero_lt_of_lt hfuel)
    have hshorter : t.length < fuel := Nat.lt_of_succ_lt_succ hfuel
    rw [List.flatMap_cons, List.append_assoc, stringBody_escapeChar, ih hshorter, List.reverse_cons,
      List.append_assoc, List.singleton_append]

theorem exists_escapeChar (c : CodePoint) : ∃ d s, escapeChar c = d :: s ∧ d ≠ CodePoint.ofChar '"' := by
  unfold escapeChar
  split_ifs with hquote
  case neg => exact ⟨c, [], rfl, hquote⟩
  all_goals exact ⟨'\\', _, rfl, by decide⟩

theorem length_le_flatMap_escapeChar (t : Text) : t.length ≤ (t.flatMap escapeChar).length := by
  induction t with
  | nil => rfl
  | cons c t ih =>
    obtain ⟨d, s, hs, -⟩ := exists_escapeChar c
    rw [List.flatMap_cons, List.length_append, hs, List.length_cons, List.length_cons]
    omega

/-- The text does not start with such a character. -/
def StartsOff (p : CodePoint → Bool) (t : Text) : Prop := ∀ c ∈ t.head?, p c = false

theorem startsOff_cons {p : CodePoint → Bool} {c : CodePoint} {r : Text} : StartsOff p (c :: r) ↔ p c = false := by
  simp [StartsOff]

/-- Two quotes at the start are no text of several lines. -/
theorem string_quoted (t : Text) {rest : Text} (hrest : StartsOff (· = CodePoint.ofChar '"') rest) :
    string (quoted t ++ rest) = .ok ((t, false), rest) := by
  have hquoted : quoted t ++ rest = CodePoint.ofChar '"' :: (t.flatMap escapeChar ++ CodePoint.ofChar '"' :: rest) := by
    simp [quoted, Text.ofString]
  have hone : Text.dropStart? [CodePoint.ofChar '"', CodePoint.ofChar '"']
      (t.flatMap escapeChar ++ CodePoint.ofChar '"' :: rest) = none := by
    refine if_neg fun hprefix => ?_
    obtain ⟨rest', hrest'⟩ := List.isPrefixOf_iff_prefix.mp hprefix
    cases t with
    | nil =>
      obtain ⟨-, hrest'⟩ := List.cons.inj hrest'
      have hquote := hrest (CodePoint.ofChar '"') (by rw [← hrest']; rfl)
      simp at hquote
    | cons c t =>
      obtain ⟨d, s, hs, hd⟩ := exists_escapeChar c
      rw [List.flatMap_cons, hs] at hrest'
      exact hd (List.cons.inj hrest').1.symm
  have hfuel : t.length < (quoted t ++ rest).length + 1 := by
    have := length_le_flatMap_escapeChar t
    rw [hquoted]
    simp only [List.length_cons, List.length_append]
    omega
  have hbody := stringBody_quoted hfuel [] rest
  rw [hquoted] at hbody ⊢
  rw [string]
  simp only [hone, decide_true, hbody]
  rfl

/-! ## Numbers -/

section

variable {p : CodePoint → Bool} {t rest : Text}

/-- What stands before the end is all that is taken. -/
theorem takeWhile_append (ht : ∀ c ∈ t, p c = true) (hrest : StartsOff p rest) : (t ++ rest).takeWhile p = t := by
  rw [List.takeWhile_append_of_pos ht]
  cases rest with
  | nil => exact List.append_nil t
  | cons c r => rw [List.takeWhile_cons_of_neg (by rw [hrest c rfl]; exact Bool.false_ne_true), List.append_nil]

theorem dropWhile_append (ht : ∀ c ∈ t, p c = true) (hrest : StartsOff p rest) : (t ++ rest).dropWhile p = rest := by
  rw [List.dropWhile_append_of_pos ht]
  cases rest with
  | nil => rfl
  | cons c r => exact List.dropWhile_cons_of_neg (by rw [hrest c rfl]; exact Bool.false_ne_true)

end

theorem digit?_of_isAsciiDigit {c : CodePoint} (hc : c.isAsciiDigit = true) : digit? 10 c = some (c.val - 48) := by
  have hbound : c.val - 48 < 10 := by
    simp only [CodePoint.isAsciiDigit, CodePoint.within, Bool.and_eq_true, decide_eq_true_eq] at hc
    have : '9'.toNat = 57 := rfl
    omega
  simp [digit?, CodePoint.hexValue?, hc, hbound]

theorem digitsIn?_of_isAsciiDigit {t : Text} (hne : t ≠ []) (ht : ∀ c ∈ t, c.isAsciiDigit = true) :
    digitsIn? 10 t = some t.digitValues := by
  induction t with
  | nil => exact absurd rfl hne
  | cons c r ih =>
    obtain ⟨hc, hr⟩ := List.forall_mem_cons.mp ht
    cases r with
    | nil => simp [digitsIn?, digit?_of_isAsciiDigit hc, Text.digitValues]
    | cons d r =>
      have hd : d ≠ CodePoint.ofChar '_' := by
        rintro rfl
        exact absurd (hr _ List.mem_cons_self) (by decide)
      rw [digitsIn?, if_neg hd, digit?_of_isAsciiDigit hc, ih (by simp) hr]
      rfl

theorem isTooWide_eq_false_iff {i : Int} : Numeral.isTooWide i = false ↔ i.natAbs < Nat.pow 10 Numeral.maxDigits := by
  rw [Numeral.isTooWide, decide_eq_false_iff_not, Nat.not_le]

/-- A number that may be written is read from its digits. -/
theorem decimal?_ofNat {n : Nat} (hn : n < Nat.pow 10 Numeral.maxDigits) (negative : Bool) :
    decimal? negative (Text.ofNat n) = some (.int (if negative then -n else n)) := by
  have hdigits (c : CodePoint) (hc : c ∈ Text.ofNat n) : isDigitPart c = true := by
    rw [isDigitPart, Text.isAsciiDigit_of_mem_ofNat hc, Bool.true_or]
  obtain ⟨hvalue, hhead⟩ := Text.value_ofNat n
  have hlength : (Text.ofNat n).digitValues.length = (Text.ofNat n).length := List.length_map _
  have hfew : ¬ Numeral.maxDigits < (Text.ofNat n).digitValues.length := by
    rwa [hlength, Nat.not_lt, Text.length_ofNat_le (by decide)]
  have hzero : (decide (1 < (Text.ofNat n).digitValues.length) &&
      decide ((Text.ofNat n).digitValues.head? = some 0)) = false := by
    by_cases hn0 : n = 0
    · subst hn0
      decide
    · rw [decide_eq_false (hhead hn0), Bool.and_false]
  rw [decimal?, List.takeWhile_eq_self_iff.mpr hdigits, List.dropWhile_eq_nil_iff.mpr hdigits,
    digitsIn?_of_isAsciiDigit (Text.ofNat_ne_nil n) fun c hc => Text.isAsciiDigit_of_mem_ofNat hc]
  simp only [hzero, Bool.false_eq_true, if_false, if_neg hfew, hvalue]

theorem not_mem_ofNat {c : CodePoint} (hc : c.isAsciiDigit = false) (n : Nat) : c ∉ Text.ofNat n := fun hmem => by
  rw [Text.isAsciiDigit_of_mem_ofNat hmem] at hc
  cases hc

theorem number?_ofInt {i : Int} (hi : Numeral.isTooWide i = false) : number? (Text.ofInt i) = some (.int i) := by
  rw [isTooWide_eq_false_iff] at hi
  obtain ⟨c, r, hcr⟩ := List.exists_cons_of_ne_nil (Text.ofNat_ne_nil i.natAbs)
  have hdigits : ∀ d ∈ c :: r, d.isAsciiDigit = true := fun d hd => Text.isAsciiDigit_of_mem_ofNat (hcr ▸ hd)
  have hletter {d : CodePoint} (hd : d.isAsciiDigit = false) : d ∉ c :: r := fun hmem => by
    rw [hdigits d hmem] at hd
    cases hd
  have hbase {p : CodePoint} (hp : p.isAsciiDigit = false) :
      Text.startsWith (c :: r) [CodePoint.ofChar '0', p] = false := by
    refine Bool.eq_false_iff.mpr fun hprefix => hletter hp ?_
    exact (List.isPrefixOf_iff_prefix.mp hprefix).subset (by simp)
  have hword {w : Text} {p : CodePoint} (hp : p.isAsciiDigit = false) (hw : p ∈ w) : c :: r ≠ w := by
    rintro rfl
    exact hletter hp hw
  have hsign : cutSign (Text.ofInt i) = (if i < 0 then some (CodePoint.ofChar '-') else none, c :: r) := by
    unfold Text.ofInt
    split
    · rw [hcr]
      rfl
    · have hnone : ¬ (c = CodePoint.ofChar '+' ∨ c = CodePoint.ofChar '-') := by
        rintro (rfl | rfl) <;> exact absurd (hdigits _ List.mem_cons_self) (by decide)
      rw [hcr, cutSign]
      simp [hnone]
  have hinf : c :: r ≠ "inf" := hword (p := 'i') (by decide) (by decide)
  have hnan : c :: r ≠ "nan" := hword (p := 'n') (by decide) (by decide)
  have hbinary : Text.startsWith (c :: r) "0b" = false := hbase (p := 'b') (by decide)
  have hoctal : Text.startsWith (c :: r) "0o" = false := hbase (p := 'o') (by decide)
  have hhex : Text.startsWith (c :: r) "0x" = false := hbase (p := 'x') (by decide)
  rw [number?, hsign]
  simp only [if_neg hinf, if_neg hnan, hbinary, hoctal, hhex, Bool.false_eq_true, if_false]
  rw [← hcr, decimal?_ofNat hi]
  by_cases hneg : i < 0
  · rw [if_pos hneg]
    exact congrArg (some <| Toml.int ·) (show -(i.natAbs : Int) = i by omega)
  · rw [if_neg hneg]
    exact congrArg (some <| Toml.int ·) (show (i.natAbs : Int) = i by omega)

theorem after?_of_not_mem {c : Char} {t : Text} (hc : CodePoint.ofChar c ∉ t) : after? c t = none := by
  cases t with
  | nil => rfl
  | cons d r => exact if_neg fun hd : d = c => hc (hd ▸ List.mem_cons_self)

theorem eq_drop_of_fixedDigits? {count v : Nat} {t r : Text} (h : fixedDigits? count t = some (v, r)) :
    r = t.drop count := by
  simp only [fixedDigits?] at h
  split at h
  · exact (Prod.mk.inj (Option.some.inj h)).2.symm
  · cases h

/-- A number has digits behind its first character. -/
theorem mem_ofNat_of_mem_drop_ofInt {i : Int} {count : Nat} (hcount : 0 < count) {c : CodePoint}
    (hc : c ∈ (Text.ofInt i).drop count) : c ∈ Text.ofNat i.natAbs := by
  obtain ⟨count, rfl⟩ := Nat.exists_eq_add_one.mpr hcount
  unfold Text.ofInt at hc
  split at hc
  · exact List.mem_of_mem_drop (show c ∈ (Text.ofNat i.natAbs).drop count from hc)
  · exact List.mem_of_mem_drop hc

/-- A number is no date and no time: it has no dash or colon behind digits. -/
theorem moment?_ofInt (i : Int) : moment? (Text.ofInt i) = none := by
  have hrest {count v : Nat} {r : Text} (hcount : 0 < count) (h : fixedDigits? count (Text.ofInt i) = some (v, r))
      (c : Char) (hc : (CodePoint.ofChar c).isAsciiDigit = false) : after? c r = none :=
    after?_of_not_mem fun hmem => not_mem_ofNat hc i.natAbs
      (mem_ofNat_of_mem_drop_ofInt hcount (eq_drop_of_fixedDigits? h ▸ hmem))
  have hdate : dateAt? (Text.ofInt i) = none := by
    cases h : fixedDigits? 4 (Text.ofInt i) with
    | none => rw [dateAt?, h]; rfl
    | some year => simp [dateAt?, h, hrest (by decide) h '-' (by decide)]
  have htime : timeAt? (Text.ofInt i) = none := by
    cases h : fixedDigits? 2 (Text.ofInt i) with
    | none => rw [timeAt?, h]; rfl
    | some hour => simp [timeAt?, h, hrest (by decide) h ':' (by decide)]
  rw [moment?, hdate, htime]

theorem isTokenEnd_of_isAsciiDigit {c : CodePoint} (hc : c.isAsciiDigit = true) : isTokenEnd c = false := by
  refine Bool.eq_false_iff.mpr fun hend => ?_
  simp only [isTokenEnd, isGap, isSpace, CodePoint.isNewline, Bool.or_eq_true, decide_eq_true_eq] at hend
  rcases hend with (((((rfl | rfl) | rfl) | rfl) | rfl) | rfl) | rfl <;> exact absurd hc (by decide)

theorem ofInt_ne_nil (i : Int) : Text.ofInt i ≠ [] := by
  unfold Text.ofInt
  split
  · exact List.cons_ne_nil _ _
  · exact Text.ofNat_ne_nil i.natAbs

theorem digit_or_dash_of_mem_ofInt {i : Int} {c : CodePoint} (hc : c ∈ Text.ofInt i) :
    c.isAsciiDigit = true ∨ c = CodePoint.ofChar '-' := by
  unfold Text.ofInt at hc
  split at hc
  · rcases List.mem_cons.mp hc with rfl | hc
    · exact .inr rfl
    · exact .inl (Text.isAsciiDigit_of_mem_ofNat hc)
  · exact .inl (Text.isAsciiDigit_of_mem_ofNat hc)

theorem scalar_ofInt {i : Int} (hi : Numeral.isTooWide i = false) {rest : Text}
    (hrest : StartsOff (!isTokenEnd ·) rest) : scalar (Text.ofInt i ++ rest) = .ok (.int i, rest) := by
  have htoken (c : CodePoint) (hc : c ∈ Text.ofInt i) : (!isTokenEnd c) = true := by
    rcases digit_or_dash_of_mem_ofInt hc with hdigit | rfl
    · rw [isTokenEnd_of_isAsciiDigit hdigit, Bool.not_false]
    · decide
  rw [scalar, takeWhile_append htoken hrest, dropWhile_append htoken hrest, moment?_ofInt, number?_ofInt hi]

/-! ## Values on one line -/

/-- A text, a number that may be written or a truth value. -/
inductive IsScalar : Toml → Prop
  | str (t : Text) : IsScalar (.str t)
  | int {i : Int} : Numeral.isTooWide i = false → IsScalar (.int i)
  | bool (b : Bool) : IsScalar (.bool b)

/-- One of those, or an array of them. -/
inductive IsFlat : Toml → Prop
  | scalar {v : Toml} : IsScalar v → IsFlat v
  | arr {items : List Toml} : (∀ v ∈ items, IsScalar v) → IsFlat (.arr items)

/-- What is written of a value is seen at its first character: it is no space and no comment, and no bracket closes an
array before it. -/
theorem IsScalar.exists_inlineText {v : Toml} (hv : IsScalar v) (item : Bool) :
    ∃ c r, inlineText item v = c :: r ∧ isGap c = false ∧ c ≠ CodePoint.ofChar '#' ∧ c ≠ CodePoint.ofChar ']' := by
  cases hv with
  | str t => exact ⟨'"', t.flatMap escapeChar ++ "\"", rfl, by decide, by decide, by decide⟩
  | @int i hi =>
    obtain ⟨c, r, hcr⟩ := List.exists_cons_of_ne_nil (ofInt_ne_nil i)
    have hc : isTokenEnd c = false := by
      rcases digit_or_dash_of_mem_ofInt (hcr ▸ List.mem_cons_self) with hdigit | rfl
      · exact isTokenEnd_of_isAsciiDigit hdigit
      · decide
    simp only [isTokenEnd, Bool.or_eq_false_iff, decide_eq_false_iff_not] at hc
    exact ⟨c, r, hcr, hc.1.1.1.1, hc.1.1.1.2, hc.1.2⟩
  | bool b => cases b <;> exact ⟨_, _, rfl, by decide, by decide, by decide⟩

theorem dropStart?_of_ne {c d : CodePoint} (hcd : c ≠ d) (p r : Text) : Text.dropStart? (d :: p) (c :: r) = none :=
  if_neg fun hprefix => hcd (List.cons_prefix_cons.mp (List.isPrefixOf_iff_prefix.mp hprefix)).1.symm

/-- What starts with a digit or a sign is a number, a date or a time. -/
theorem value_eq_scalar {c : CodePoint} (hc : c.isAsciiDigit = true ∨ c = CodePoint.ofChar '-') (fuel depth : Nat)
    (r : Text) : value (fuel + 1) depth (c :: r) = scalar (c :: r) := by
  have hne {d : CodePoint} (hd : (d.isAsciiDigit || d = CodePoint.ofChar '-') = false) : c ≠ d := by
    rintro rfl
    rcases hc with hc | rfl
    · rw [hc] at hd
      cases hd
    · cases hd
  have hquote : ¬ (c = CodePoint.ofChar '"' ∨ c = CodePoint.ofChar '\'') :=
    not_or.mpr ⟨hne (by decide), hne (by decide)⟩
  have htrue : Text.dropStart? "true" (c :: r) = none := dropStart?_of_ne (hne (by decide)) _ r
  have hfalse : Text.dropStart? "false" (c :: r) = none := dropStart?_of_ne (hne (by decide)) _ r
  have harray : c ≠ CodePoint.ofChar '[' := hne (by decide)
  have htable : c ≠ CodePoint.ofChar '{' := hne (by decide)
  rw [value.eq_def]
  simp [hquote, harray, htable, htrue, hfalse]

theorem value_of_isScalar {v : Toml} (hv : IsScalar v) (item : Bool) (fuel depth : Nat) {rest : Text}
    (hrest : StartsOff (!isTokenEnd ·) rest) :
    value (fuel + 1) depth (inlineText item v ++ rest) = .ok (v, rest) := by
  cases hv with
  | str t =>
    have hquote : StartsOff (· = CodePoint.ofChar '"') rest := fun c hc => by
      have hend := hrest c hc
      refine decide_eq_false fun h => ?_
      rw [h] at hend
      exact absurd hend (by decide)
    have hstring := string_quoted t hquote
    have hcons : quoted t ++ rest = CodePoint.ofChar '"' :: (t.flatMap escapeChar ++ "\"" ++ rest) := rfl
    rw [inlineText]
    rw [hcons] at hstring ⊢
    rw [value.eq_def]
    simp only [decide_true, Bool.true_or, if_true, hstring]
    rfl
  | @int i hi =>
    obtain ⟨c, r, hcr⟩ := List.exists_cons_of_ne_nil (ofInt_ne_nil i)
    have hscalar := scalar_ofInt hi hrest
    have hc := digit_or_dash_of_mem_ofInt (hcr ▸ List.mem_cons_self : c ∈ Text.ofInt i)
    rw [inlineText]
    rw [hcr, List.cons_append] at hscalar ⊢
    rw [value_eq_scalar hc, hscalar]
  | bool b =>
    rw [value.eq_def]
    cases b <;> rfl

/-- What is no space and no comment is not skipped. -/
theorem skipGaps_cons {c : CodePoint} (hgap : isGap c = false) (hcomment : c ≠ CodePoint.ofChar '#') (r : Text) :
    skipGaps false (c :: r) = .ok (c :: r) := by
  rw [skipGaps, hgap, if_neg hcomment]
  rfl

/-- A space before an item is skipped. -/
theorem array_space (fuel depth : Nat) (before : List Toml) (t : Text) :
    array fuel depth before (CodePoint.ofChar ' ' :: t) = array fuel depth before t := by
  have hskip : skipGaps false (CodePoint.ofChar ' ' :: t) = skipGaps false t := by
    rw [skipGaps, if_pos (by decide)]
    rfl
  cases fuel with
  | zero => rw [array, array]
  | succ fuel => rw [array, array, hskip]

theorem itemTexts_of_isScalar {items : List Toml} (hitems : ∀ v ∈ items, IsScalar v) :
    itemTexts items = items.map (inlineText true) := by
  induction items with
  | nil => rfl
  | cons v items ih =>
    obtain ⟨hv, hitems⟩ := List.forall_mem_cons.mp hitems
    have hset : isAbsent v = false := by cases hv <;> rfl
    rw [itemTexts, hset, ih hitems]
    rfl

/-- An item and what follows it in an array. -/
theorem array_item {v : Toml} (hv : IsScalar v) (fuel depth : Nat) (before : List Toml) {d : CodePoint}
    (hd : d = CodePoint.ofChar ',' ∨ d = CodePoint.ofChar ']') (rest : Text) :
    array (fuel + 2) depth before (inlineText true v ++ d :: rest) =
      if d = CodePoint.ofChar ',' then array (fuel + 1) depth (v :: before) rest
      else .ok (.arr (v :: before).reverse, rest) := by
  obtain ⟨c, r, hcr, hgap, hcomment, hclose⟩ := hv.exists_inlineText true
  have hend : StartsOff (!isTokenEnd ·) (d :: rest) :=
    startsOff_cons.mpr (by rcases hd with rfl | rfl <;> decide)
  have hvalue := value_of_isScalar hv true fuel depth hend
  rw [hcr, List.cons_append] at hvalue ⊢
  rw [array, skipGaps_cons hgap hcomment]
  simp only [if_neg hclose, hvalue]
  rcases hd with rfl | rfl
  · rw [skipGaps_cons (by decide) (by decide)]
    rfl
  · rw [skipGaps_cons (by decide) (by decide)]
    rfl

theorem array_of_isScalar {items : List Toml} (hitems : ∀ v ∈ items, IsScalar v) {fuel : Nat}
    (hfuel : items.length < fuel) (depth : Nat) (before : List Toml) (rest : Text) :
    array fuel depth before (Text.join ", " (items.map (inlineText true)) ++ CodePoint.ofChar ']' :: rest) =
      .ok (.arr (before.reverse ++ items), rest) := by
  induction items generalizing fuel before with
  | nil =>
    obtain ⟨fuel, rfl⟩ := Nat.exists_eq_add_one.mpr hfuel
    have hskip := skipGaps_cons (c := CodePoint.ofChar ']') (by decide) (by decide) rest
    rw [List.map_nil, Text.join, List.nil_append, array, hskip, List.append_nil]
    rfl
  | cons v items ih =>
    obtain ⟨fuel, rfl⟩ : ∃ n, fuel = n + 2 := ⟨fuel - 2, by simp only [List.length_cons] at hfuel; omega⟩
    obtain ⟨hv, hitems⟩ := List.forall_mem_cons.mp hitems
    cases items with
    | nil =>
      rw [List.map_singleton, Text.join, array_item hv fuel depth before (.inr rfl), if_neg (by decide),
        List.reverse_cons]
    | cons w items =>
      have hcut : Text.join ", " ((v :: w :: items).map (inlineText true)) ++ CodePoint.ofChar ']' :: rest =
          inlineText true v ++ CodePoint.ofChar ',' :: CodePoint.ofChar ' ' ::
            (Text.join ", " ((w :: items).map (inlineText true)) ++ CodePoint.ofChar ']' :: rest) := by
        simp [Text.join, Text.ofString]
      rw [hcut, array_item hv fuel depth before (.inl rfl), if_pos rfl, array_space,
        ih hitems (Nat.lt_of_succ_lt_succ hfuel), List.reverse_cons, List.append_assoc, List.singleton_append]

theorem length_le_join {sep : Text} {parts : List Text} (hparts : ∀ t ∈ parts, t ≠ []) :
    parts.length ≤ (Text.join sep parts).length := by
  induction parts with
  | nil => rfl
  | cons t parts ih =>
    obtain ⟨ht, hparts⟩ := List.forall_mem_cons.mp hparts
    have hone := List.length_pos_iff.mpr ht
    have hrest := ih hparts
    cases parts with
    | nil => exact hone
    | cons u parts =>
      rw [Text.join, List.length_append, List.length_append, List.length_cons]
      omega

/-- A value is read from what is written of it; the fuel need not exceed the length of that. -/
theorem value_of_isFlat {v : Toml} (hv : IsFlat v) {fuel : Nat} (hfuel : (inlineText false v).length ≤ fuel)
    {depth : Nat} (hdepth : 0 < depth) {rest : Text} (hrest : StartsOff (!isTokenEnd ·) rest) :
    value fuel depth (inlineText false v ++ rest) = .ok (v, rest) := by
  cases hv with
  | scalar hv =>
    obtain ⟨c, r, hcr, -⟩ := hv.exists_inlineText false
    rw [hcr, List.length_cons] at hfuel
    obtain ⟨fuel, rfl⟩ := Nat.exists_eq_add_one.mpr (Nat.zero_lt_of_lt hfuel)
    exact value_of_isScalar hv false fuel depth hrest
  | @arr items hitems =>
    obtain ⟨depth, rfl⟩ := Nat.exists_eq_add_one.mpr hdepth
    have hwritten : inlineText false (.arr items) ++ rest = CodePoint.ofChar '[' ::
        (Text.join ", " (items.map (inlineText true)) ++ CodePoint.ofChar ']' :: rest) := by
      simp [inlineText, itemTexts_of_isScalar hitems, Text.ofString]
    have hlength : (inlineText false (.arr items)).length =
        (Text.join ", " (items.map (inlineText true))).length + 2 := by
      simp [inlineText, itemTexts_of_isScalar hitems, Text.ofString]
    have hmany : items.length ≤ (Text.join ", " (items.map (inlineText true))).length := by
      refine (List.length_map (inlineText true)).symm.trans_le (length_le_join fun t ht => ?_)
      obtain ⟨v, hv, rfl⟩ := List.mem_map.mp ht
      obtain ⟨c, r, hcr, -⟩ := (hitems v hv).exists_inlineText true
      exact hcr ▸ List.cons_ne_nil c r
    obtain ⟨fuel, rfl⟩ : ∃ n, fuel = n + 1 := ⟨fuel - 1, by omega⟩
    rw [hwritten, value.eq_def]
    exact array_of_isScalar hitems (by omega) depth [] rest

end Toml

end Legible
