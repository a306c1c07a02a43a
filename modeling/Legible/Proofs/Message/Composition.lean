import Legible.Proofs.Message.Grammar
/-!
# Messages put together

A span ends where its closing quote is found, whatever stands behind it. So a message can be segmented piece by piece,
as long as no piece ends within a span or within prose that goes on: both are told by the cut of the first piece, and
are the only ways in which it fails (`segments_append_iff`).
-/

namespace Legible.Message

/-! ## What stands behind a span -/

/-- A closing quote is found without a look at what follows it. -/
theorem closingQuote?_append {d : Depth} {t : Text} {n : Nat} (h : closingQuote? d t = some n) (more : Text) :
    closingQuote? d (t ++ more) = some n := by
  induction t generalizing d n with
  | nil => cases h
  | cons c t ih =>
    by_cases hc : c = quote ∧ d.isBalanced = true
    · obtain ⟨rfl, hd⟩ := hc
      rw [closingQuote?_head hd] at h
      rwa [List.cons_append, closingQuote?_head hd]
    · have hopen : c = quote → d.isBalanced = false := fun hq => by simpa [hq] using hc
      rw [closingQuote?_tail hopen] at h
      obtain ⟨k, hk, rfl⟩ := Option.map_eq_some_iff.mp h
      rw [List.cons_append, closingQuote?_tail hopen, ih hk]
      rfl

/-- The content of a span is the same whatever stands behind its closing quote. -/
theorem IsContent.append {q m : Text} (hq : IsContent q (q ++ quote :: m)) (more : Text) :
    IsContent q (q ++ quote :: (m ++ more)) := by
  have hclose := closingQuote?_append (closingQuote?_of_isContent hq) more
  rw [List.append_assoc, List.cons_append, closingQuote?_eq_some_iff_isContent, List.take_left] at hclose
  exact hclose.1

theorem segments_content_append {t q m : Text} (ht : quote ∉ t) (hq : IsContent q (q ++ quote :: m)) (more : Text) :
    segments (t ++ quote :: (q ++ quote :: m) ++ more) = proseIfAny t ++ span q :: segments (m ++ more) := by
  have hmessage : t ++ quote :: (q ++ quote :: m) ++ more = t ++ quote :: (q ++ quote :: (m ++ more)) := by simp
  rw [hmessage, segments_content ht (hq.append more)]

/-- Prose ends at a quote. -/
theorem segments_prose_append {t r : Text} (ht : quote ∉ t) (hr : r = [] ∨ ∃ u, r = quote :: u) :
    segments (t ++ r) = proseIfAny t ++ segments r := by
  have hnil : quote ∉ ([] : Text) := List.not_mem_nil
  rcases hr with rfl | ⟨u, rfl⟩
  · rw [List.append_nil, segments_prose ht, segments_prose hnil]
    exact (List.append_nil _).symm
  · cases hu : closingQuote? {} u with
    | none =>
      have hquote := segments_open hnil hu
      rw [List.nil_append] at hquote
      rw [segments_open ht hu, hquote]
      rfl
    | some n =>
      have hquote := segments_span hnil hu
      rw [List.nil_append] at hquote
      rw [segments_span ht hu, hquote]
      rfl

/-! ## Two pieces of a message -/

/-- A message ends with the closing quote of a span. -/
def Cut.EndsWithSpan (c : Cut) : Prop := c.spans ≠ [] ∧ c.tail = [] ∧ c.rest = []

/-- A first piece can be followed by a second one: it ends with a span, or has prose at its end that a quote ends. -/
def Cut.Joins (c : Cut) (b : Text) : Prop := c.rest = [] ∧ (c.tail = [] ∨ b.head? = some quote)

theorem segments_append {a b : Text} {c : Cut} (h : Cut.Of a c) (hjoins : c.Joins b) :
    segments (a ++ b) = segments a ++ segments b := by
  induction h with
  | @rest t r ht _ =>
    obtain ⟨hr, hjoin⟩ := hjoins
    obtain rfl : r = [] := hr
    rw [List.append_nil, segments_prose ht]
    rcases hjoin with htail | hb
    · obtain rfl : t = [] := htail
      rfl
    · obtain ⟨u, rfl⟩ := List.head?_eq_some_iff.mp hb
      exact segments_prose_append ht (.inr ⟨u, rfl⟩)
  | @span t q m c ht hq _ ih =>
    rw [segments_content_append ht hq b, ih hjoins, segments_content ht hq, List.append_assoc, List.cons_append]

/-! ## Pieces that are no messages of their own -/

/-- A span is no prose that begins with a quote. -/
theorem span_ne_prose_quote (q u : Text) : span q ≠ .prose (quote :: u) := by
  unfold span Segment.prose
  split
  · exact Segment.noConfusion
  · intro h
    have htick : CodePoint.ofChar '`' = quote := (List.cons.inj (Segment.text.inj h).1).1
    exact absurd htick (by decide)

/-- What stands behind a quote that opens no span belongs to the same prose, or closes the span. -/
theorem segments_open_append_ne {t u b : Text} (ht : quote ∉ t) (hu : closingQuote? {} u = none) (hb : b ≠ []) :
    segments (t ++ quote :: u ++ b) ≠ segments (t ++ quote :: u) ++ segments b := by
  intro heq
  rw [segments_open ht hu, List.append_assoc, List.append_assoc, List.cons_append] at heq
  cases hclose : closingQuote? {} (u ++ b) with
  | none =>
    rw [segments_open ht hclose] at heq
    have hprose : Segment.prose (quote :: (u ++ b)) = .prose (quote :: u) :=
      (List.cons.inj (List.append_cancel_left heq)).1
    have hsame : u ++ b = u := (List.cons.inj (Segment.text.inj hprose).1).2
    exact hb (List.append_right_eq_self.mp hsame)
  | some n =>
    rw [segments_span ht hclose] at heq
    exact span_ne_prose_quote _ u (List.cons.inj (List.append_cancel_left heq)).1

/-- Prose goes on with prose. -/
theorem segments_prose_append_ne {t b : Text} (ht : quote ∉ t) (hne : t ≠ []) (hb : b ≠ [])
    (hquote : b.head? ≠ some quote) : segments (t ++ b) ≠ segments t ++ segments b := by
  intro heq
  have hbefore := quote_not_mem_beforeQuote b
  have hfrom := fromQuote_eq b
  have hsplit := beforeQuote_append_fromQuote b
  generalize beforeQuote b = p at hbefore hsplit
  generalize fromQuote b = r at hfrom hsplit
  subst hsplit
  have hp : p ≠ [] := by
    rintro rfl
    rcases hfrom with rfl | ⟨u, rfl⟩
    · exact hb rfl
    · exact hquote rfl
  have hboth : quote ∉ t ++ p := by simp [ht, hbefore]
  -- one piece of prose on the left, two on the right
  rw [← List.append_assoc, segments_prose_append hboth hfrom, segments_prose_append hbefore hfrom, segments_prose ht] at heq
  have hlength := congrArg List.length heq
  simp [proseIfAny, hne, hp] at hlength

theorem segments_append_iff {a b : Text} {c : Cut} (h : Cut.Of a c) :
    segments (a ++ b) = segments a ++ segments b ↔ b = [] ∨ c.Joins b := by
  constructor
  · intro heq
    rw [or_iff_not_imp_left]
    intro hb
    induction h with
    | @rest t r ht hr =>
      rcases hr with rfl | ⟨u, rfl, hu⟩
      · rw [List.append_nil] at heq
        refine ⟨rfl, or_iff_not_imp_left.mpr fun hne => ?_⟩
        by_contra hquote
        exact segments_prose_append_ne ht hne hb hquote heq
      · exact absurd heq (segments_open_append_ne ht (closingQuote?_eq_none_iff_closes.mpr hu) hb)
    | @span t q m c ht hq _ ih =>
      rw [segments_content_append ht hq b, segments_content ht hq, List.append_assoc, List.cons_append] at heq
      exact ih (List.cons.inj (List.append_cancel_left heq)).2
  · rintro (rfl | hjoins)
    · have hempty : segments [] = [] := segments_prose List.not_mem_nil
      rw [hempty, List.append_nil, List.append_nil]
    · exact segments_append h hjoins

theorem Cut.Of.tail_of_nil {c : Cut} (h : Cut.Of [] c) : c.tail = [] := by
  have hempty : Cut.Of [] ⟨[], [], []⟩ := .rest List.not_mem_nil (.inl rfl)
  rw [cut_unique h hempty]

/-- Segmentation is compositional. If a message leaves no quote without a partner, and it is empty or ends with a span,
or what follows it is empty or begins with a quote, then the two are segmented one after the other. So a message that
ends with a span has its segments whatever follows it. -/
theorem segments_are_compositional {a : Text} {c : Cut} (ha : Cut.Of a c) :
    (∀ b, c.rest = [] → a = [] ∨ c.EndsWithSpan ∨ b = [] ∨ b.head? = some quote →
      segmentsOf? (some (a ++ b)) = segmentsOf? (some a) ++ segmentsOf? (some b)) ∧
    (c.EndsWithSpan → ∀ m, a <+: m → segmentsOf? (some a) <+: segmentsOf? (some m)) ∧
    ∀ b, segmentsOf? (some (a ++ b)) = segmentsOf? (some a) ++ segmentsOf? (some b) ↔ b = [] ∨ c.Joins b := by
  have hexact (b : Text) := segments_append_iff (b := b) ha
  refine ⟨fun b hrest hcase => (hexact b).mpr ?_, ?_, hexact⟩
  · rcases hcase with rfl | ⟨_, htail, _⟩ | rfl | hb
    · exact .inr ⟨hrest, .inl ha.tail_of_nil⟩
    · exact .inr ⟨hrest, .inl htail⟩
    · exact .inl rfl
    · exact .inr ⟨hrest, .inr hb⟩
  · rintro ⟨_, htail, hrest⟩ _ ⟨b, rfl⟩
    exact ⟨segments b, ((hexact b).mpr (.inr ⟨hrest, .inl htail⟩)).symm⟩

/-- A type at the end of a message, whatever follows it. -/
theorem finished_type_keeps_its_segment :
    let type : Text := "{ a: string; b: number; c: boolean }"
    let a : Text := "Type '" ++ type ++ "'"
    let c : Cut := ⟨[("Type ", type)], [], []⟩
    Cut.Of a c ∧ c.rest = [] ∧ c.EndsWithSpan ∧
      ∀ b, segmentsOf? (some (a ++ b)) = [.prose "Type ", .type type] ++ segmentsOf? (some b) := by
  intro type a c
  have hclose : closingQuote? {} (type ++ [quote]) = some type.length := by decide +kernel
  have hcontent : IsContent type (type ++ quote :: []) := by
    rw [closingQuote?_eq_some_iff_isContent, List.take_left] at hclose
    exact hclose.1
  have hprose : quote ∉ ("Type " : Text) := by decide
  have hend : Cut.Of [] ⟨[], [], []⟩ := .rest List.not_mem_nil (.inl rfl)
  have ha : Cut.Of a c := .span hprose hcontent hend
  have hspans : c.EndsWithSpan := ⟨List.cons_ne_nil _ _, rfl, rfl⟩
  have hsegments : segmentsOf? (some a) = [.prose "Type ", .type type] := by decide +kernel
  refine ⟨ha, rfl, hspans, fun b => ?_⟩
  rw [← hsegments]
  exact (segments_are_compositional ha).1 b rfl (.inr (.inl hspans))

/-- A quote that opens no span goes with what follows it, and so does prose at the end. -/
example : segments ("It's " ++ "Ann's") ≠ segments "It's " ++ segments "Ann's" ∧
    segments ("a" ++ "b") ≠ segments "a" ++ segments "b" := by decide +kernel

end Legible.Message
