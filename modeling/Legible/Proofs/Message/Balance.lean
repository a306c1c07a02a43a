import Legible.Message.Quote
import Mathlib.Data.List.Count
import Mathlib.Order.Bounds.Basic
import Mathlib.Tactic.SplitIfs
/-!
# Where a quoted span ends

The depth behind a text is a matter of counting: for each pair it is how many openers there are more
than closers. So the quote that closes a span is the first one with a balanced text before it, and the
content of the span is the shortest balanced text that a quote follows.
-/

namespace Legible.Message

/-! ## Depths are counts -/

/-- As many characters of one kind as of another. -/
def EquallyMany (o c : CodePoint) (q : Text) : Prop := q.count o = q.count c

/-- Openers and closers of each pair occur equally often, in any order. -/
def IsBalanced (q : Text) : Prop :=
  EquallyMany '{' '}' q ∧ EquallyMany '[' ']' q ∧ EquallyMany '(' ')' q ∧ EquallyMany '<' '>' q

namespace Depth

theorem step_brace (d : Depth) (c : CodePoint) :
    (d.step c).brace = d.brace + (if c = '{' then 1 else 0) - (if c = '}' then 1 else 0) := by
  unfold step
  split_ifs <;> simp_all

theorem step_square (d : Depth) (c : CodePoint) :
    (d.step c).square = d.square + (if c = '[' then 1 else 0) - (if c = ']' then 1 else 0) := by
  unfold step
  split_ifs <;> simp_all

theorem step_round (d : Depth) (c : CodePoint) :
    (d.step c).round = d.round + (if c = '(' then 1 else 0) - (if c = ')' then 1 else 0) := by
  unfold step
  split_ifs <;> simp_all

theorem step_angle (d : Depth) (c : CodePoint) :
    (d.step c).angle = d.angle + (if c = '<' then 1 else 0) - (if c = '>' then 1 else 0) := by
  unfold step
  split_ifs <;> simp_all

/-- A number that each opener raises and each closer lowers counts both. -/
theorem after_count (f : Depth → Int) (o c : CodePoint)
    (hf : ∀ d x, f (d.step x) = f d + (if x = o then 1 else 0) - (if x = c then 1 else 0))
    (d : Depth) (t : Text) : f (d.after t) = f d + t.count o - t.count c := by
  induction t generalizing d with
  | nil => simp [after]
  | cons x t ih =>
    have h := ih (d.step x)
    simp only [after, List.foldl_cons] at h ⊢
    rw [h, hf, List.count_cons, List.count_cons]
    simp only [beq_iff_eq]
    split_ifs <;> omega

theorem after_nil (d : Depth) : d.after [] = d := rfl

theorem after_cons (d : Depth) (c : CodePoint) (t : Text) : d.after (c :: t) = (d.step c).after t := rfl

theorem isBalanced_after (q : Text) : (after {} q).isBalanced = true ↔ IsBalanced q := by
  have hb := after_count brace _ _ step_brace {} q
  have hs := after_count square _ _ step_square {} q
  have hr := after_count round _ _ step_round {} q
  have ha := after_count angle _ _ step_angle {} q
  simp only [isBalanced, decide_eq_true_eq, IsBalanced, EquallyMany]
  constructor
  · intro h
    rw [h] at hb hs hr ha
    simp only at hb hs hr ha
    refine ⟨?_, ?_, ?_, ?_⟩ <;> omega
  · rintro ⟨h1, h2, h3, h4⟩
    cases hd : after {} q with
    | mk b s r a =>
      rw [hd] at hb hs hr ha
      simp only at hb hs hr ha
      simp only [mk.injEq]
      refine ⟨?_, ?_, ?_, ?_⟩ <;> omega

end Depth

/-! ## The closing quote is the first one that finds the depth balanced -/

theorem step_quote (d : Depth) : d.step quote = d := by
  simp [Depth.step, quote]

theorem closingQuote?_head {d : Depth} (hd : d.isBalanced = true) (t : Text) :
    closingQuote? d (quote :: t) = some 0 := by
  simp [closingQuote?, hd]

theorem closingQuote?_tail {d : Depth} {c : CodePoint} (h : c = quote → d.isBalanced = false) (t : Text) :
    closingQuote? d (c :: t) = (closingQuote? (d.step c) t).map (· + 1) := by
  by_cases hc : c = quote
  · subst hc
    simp [closingQuote?, h rfl, step_quote]
  · simp [closingQuote?, hc]

theorem closingQuote?_eq_some_iff {d : Depth} {t : Text} {n : Nat} :
    closingQuote? d t = some n ↔ t[n]? = some quote ∧ (d.after (t.take n)).isBalanced = true ∧
      ∀ k < n, t[k]? = some quote → (d.after (t.take k)).isBalanced = false := by
  induction t generalizing d n with
  | nil => simp [closingQuote?]
  | cons c t ih =>
    by_cases h : c = quote ∧ d.isBalanced = true
    · obtain ⟨rfl, hd⟩ := h
      rw [closingQuote?_head hd]
      constructor
      · rintro h
        cases h
        exact ⟨rfl, hd, fun k hk => absurd hk (by omega)⟩
      · rintro ⟨-, -, h⟩
        by_contra hn
        have h0 := h 0 (by simp only [Option.some.injEq] at hn; omega) rfl
        rw [List.take_zero, Depth.after_nil, hd] at h0
        cases h0
    · have hc : c = quote → d.isBalanced = false := fun hc => by simpa [hc] using h
      rw [closingQuote?_tail hc]
      cases n with
      | zero =>
        simp only [Option.map_eq_some_iff, Nat.add_eq_zero_iff, Nat.one_ne_zero, and_false, exists_false,
          false_iff, not_and]
        intro h0 hd
        have := hc (by simpa using h0)
        rw [List.take_zero, Depth.after_nil, this] at hd
        cases hd
      | succ n =>
        simp only [Option.map_eq_some_iff, Nat.add_right_cancel_iff, exists_eq_right, ih,
          List.getElem?_cons_succ, List.take_succ_cons, Depth.after_cons]
        refine and_congr_right fun _ => and_congr_right fun _ => ⟨fun h k hk hq => ?_, fun h k hk => ?_⟩
        · cases k with
          | zero => exact hc (by simpa using hq)
          | succ k => exact h k (by omega) hq
        · exact h (k + 1) (by omega)

theorem closingQuote?_eq_none_iff {d : Depth} {t : Text} :
    closingQuote? d t = none ↔ ∀ n, t[n]? = some quote → (d.after (t.take n)).isBalanced = false := by
  induction t generalizing d with
  | nil => simp [closingQuote?]
  | cons c t ih =>
    by_cases h : c = quote ∧ d.isBalanced = true
    · obtain ⟨rfl, hd⟩ := h
      rw [closingQuote?_head hd]
      simp only [reduceCtorEq, false_iff]
      intro h
      have h0 := h 0 rfl
      rw [List.take_zero, Depth.after_nil, hd] at h0
      cases h0
    · have hc : c = quote → d.isBalanced = false := fun hc => by simpa [hc] using h
      rw [closingQuote?_tail hc, Option.map_eq_none_iff, ih]
      constructor
      · intro h n hn
        cases n with
        | zero => exact hc (by simpa using hn)
        | succ n => exact h n hn
      · exact fun h n hn => h (n + 1) hn

/-! ## The content of a span is the shortest balanced text that a quote follows -/

/-- A span that goes on with `t` can have the content `q`: a quote follows it, and it is balanced. -/
def Closes (q t : Text) : Prop := q ++ [quote] <+: t ∧ IsBalanced q

/-- The content of a span that goes on with `t` is `q`, the shortest that it can have. -/
def IsContent (q t : Text) : Prop := Closes q t ∧ ∀ p, Closes p t → q.length ≤ p.length

theorem closes_take_iff {t : Text} {n : Nat} (hn : t[n]? = some quote) :
    Closes (t.take n) t ↔ (Depth.after {} (t.take n)).isBalanced = true := by
  rw [Depth.isBalanced_after]
  refine and_iff_right ⟨t.drop (n + 1), ?_⟩
  obtain ⟨hlt, hq⟩ := List.getElem?_eq_some_iff.1 hn
  rw [← hq, List.append_assoc, List.singleton_append, List.getElem_cons_drop, List.take_append_drop]

theorem Closes.getElem? {q t : Text} (h : Closes q t) : t[q.length]? = some quote := by
  obtain ⟨u, rfl⟩ := h.1
  simp

theorem Closes.take_eq {q t : Text} (h : Closes q t) : t.take q.length = q := by
  obtain ⟨u, rfl⟩ := h.1
  simp

theorem closingQuote?_eq_some_iff_isContent {t : Text} {n : Nat} :
    closingQuote? {} t = some n ↔ IsContent (t.take n) t ∧ n < t.length := by
  rw [closingQuote?_eq_some_iff]
  constructor
  · rintro ⟨hn, hb, hmin⟩
    have hlt : n < t.length := (List.getElem?_eq_some_iff.1 hn).1
    refine ⟨⟨(closes_take_iff hn).2 hb, fun p hp => ?_⟩, hlt⟩
    by_contra hlen
    have hpn : p.length < n := by rw [List.length_take] at hlen; omega
    have hb' := hmin p.length hpn hp.getElem?
    rw [← Bool.not_eq_true, hp.take_eq, Depth.isBalanced_after] at hb'
    exact hb' hp.2
  · rintro ⟨⟨hc, hmin⟩, hlt⟩
    have hlen : (t.take n).length = n := by rw [List.length_take]; omega
    have hn : t[n]? = some quote := hlen ▸ hc.getElem?
    refine ⟨hn, (closes_take_iff hn).1 hc, fun k hk hq => ?_⟩
    by_contra hb
    have hle := hmin _ ((closes_take_iff hq).2 (by simpa using hb))
    rw [hlen, List.length_take] at hle
    omega

theorem closingQuote?_eq_none_iff_closes {t : Text} :
    closingQuote? {} t = none ↔ ∀ q, ¬ Closes q t := by
  rw [closingQuote?_eq_none_iff]
  constructor
  · intro h q hq
    have hb := h q.length hq.getElem?
    rw [← Bool.not_eq_true, hq.take_eq, Depth.isBalanced_after] at hb
    exact hb hq.2
  · intro h n hn
    by_contra hb
    exact h _ ((closes_take_iff hn).2 (by simpa using hb))

/-- A span has at most one content. -/
theorem IsContent.unique {p q t : Text} (hp : IsContent p t) (hq : IsContent q t) : p = q := by
  have hlen : p.length = q.length := Nat.le_antisymm (hp.2 q hq.1) (hq.2 p hp.1)
  rw [← hp.1.take_eq, ← hq.1.take_eq, hlen]

/-! ## The place of the closing quote is the least one -/

/-- A quote at `i` can close a span whose content begins at `start`: what stands between them is balanced. -/
def ClosesAt (text : Text) (start i : Nat) : Prop :=
  start ≤ i ∧ text[i]? = some quote ∧ IsBalanced (text.extract start i)

theorem closesAt_add_iff {text : Text} {start n : Nat} :
    ClosesAt text start (start + n) ↔ (text.drop start)[n]? = some quote ∧
      (Depth.after {} ((text.drop start).take n)).isBalanced = true := by
  rw [Depth.isBalanced_after, ClosesAt, List.extract_eq_take_drop, Nat.add_sub_cancel_left, List.getElem?_drop]
  exact and_iff_right (Nat.le_add_right start n)

theorem closesAt_append_iff {text : Text} {start i : Nat} (hi : i < text.length) (more : Text) :
    ClosesAt (text ++ more) start i ↔ ClosesAt text start i := by
  rw [ClosesAt, ClosesAt, List.getElem?_append_left hi]
  refine and_congr_right fun hstart => and_congr_right fun _ => ?_
  rw [List.extract_eq_take_drop, List.extract_eq_take_drop, List.drop_append_of_le_length (by omega),
    List.take_append_of_le_length (by rw [List.length_drop]; omega)]

theorem findClosingQuote_eq_some_iff {text : Text} {start i : Nat} :
    findClosingQuote text start = some i ↔ IsLeast {k | ClosesAt text start k} i := by
  simp only [findClosingQuote, Option.map_eq_some_iff, closingQuote?_eq_some_iff]
  constructor
  · rintro ⟨n, ⟨hn, hb, hmin⟩, rfl⟩
    refine ⟨closesAt_add_iff.mpr ⟨hn, hb⟩, fun k hk => ?_⟩
    obtain ⟨m, rfl⟩ := Nat.exists_eq_add_of_le hk.1
    obtain ⟨hm, hmb⟩ := closesAt_add_iff.mp hk
    by_contra hlt
    rw [hmin m (by omega) hm] at hmb
    cases hmb
  · rintro ⟨hi, hmin⟩
    obtain ⟨n, rfl⟩ := Nat.exists_eq_add_of_le hi.1
    obtain ⟨hn, hb⟩ := closesAt_add_iff.mp hi
    refine ⟨n, ⟨hn, hb, fun k hk hq => ?_⟩, rfl⟩
    by_contra hbal
    have hle : start + n ≤ start + k := hmin (closesAt_add_iff.mpr ⟨hq, by simpa using hbal⟩)
    omega

theorem findClosingQuote_eq_none_iff {text : Text} {start : Nat} :
    findClosingQuote text start = none ↔ ∀ i, ¬ ClosesAt text start i := by
  rw [findClosingQuote, Option.map_eq_none_iff, closingQuote?_eq_none_iff]
  constructor
  · intro h i hi
    obtain ⟨n, rfl⟩ := Nat.exists_eq_add_of_le hi.1
    obtain ⟨hn, hb⟩ := closesAt_add_iff.mp hi
    rw [h n hn] at hb
    cases hb
  · intro h n hn
    by_contra hb
    exact h (start + n) (closesAt_add_iff.mpr ⟨hn, by simpa using hb⟩)

/-- The quote that closes a span stands at the least place where a quote stands behind a balanced text, if there is
such a place at all. So what comes before the span has no part in it, and a place once found stays the place whatever
is written behind the text. -/
theorem closing_quote_is_least_balanced (text : Text) (start : Nat) :
    (∀ i, findClosingQuote text start = some i ↔ IsLeast {k | ClosesAt text start k} i) ∧
      (findClosingQuote text start = none ↔ ∀ i, ¬ ClosesAt text start i) ∧
      findClosingQuote text start = (findClosingQuote (text.drop start) 0).map (start + ·) ∧
      ∀ i more, findClosingQuote text start = some i → findClosingQuote (text ++ more) start = some i := by
  refine ⟨fun i => findClosingQuote_eq_some_iff, findClosingQuote_eq_none_iff, ?_, ?_⟩
  · have hzero : findClosingQuote (text.drop start) 0 = closingQuote? {} (text.drop start) := by
      simp [findClosingQuote]
    rw [hzero, findClosingQuote]
  · intro i more hi
    obtain ⟨hcloses, hmin⟩ := findClosingQuote_eq_some_iff.mp hi
    have hlt : i < text.length := (List.getElem?_eq_some_iff.mp hcloses.2.1).1
    refine findClosingQuote_eq_some_iff.mpr ⟨(closesAt_append_iff hlt more).mpr hcloses, fun k hk => ?_⟩
    by_contra hki
    exact hki (hmin ((closesAt_append_iff (by omega) more).mp hk))

/-- The quotes within the brackets close nothing, and neither does one between a closer and its opener. -/
example : findClosingQuote "x'[1, 'b']'y" 2 = some 10 ∧ findClosingQuote ")'('" 0 = some 3 ∧
    findClosingQuote "(a'b" 0 = none := by decide

end Legible.Message
