import Legible.Message.Segment
import Legible.Proofs.Message.Balance
import Mathlib.Data.List.Forall2
import Mathlib.Data.List.TakeWhile
import Mathlib.Logic.ExistsUnique
/-!
# The grammar of messages

A message is prose and quoted spans in turn, `t₀ 'q₁' t₁ … 'qₙ' tₙ r`: no `tᵢ` has a quote, each `qᵢ`
is the content of the span at its place, and the rest `r` is empty or starts with a quote that opens no
span. Every message has exactly one such cut, and its segments are read off it.
-/

namespace Legible.Message

/-! ## Cuts -/

/-- A message in pieces: the spans, each behind the prose before it, the prose behind the last span, and
the rest. -/
structure Cut where
  spans : List (Text × Text)
  tail : Text
  rest : Text

namespace Cut

/-- The message has this cut. -/
inductive Of : Text → Cut → Prop
  | rest {t r : Text} : quote ∉ t → (r = [] ∨ ∃ u, r = quote :: u ∧ ∀ q, ¬ Closes q u) →
      Of (t ++ r) ⟨[], t, r⟩
  | span {t q m : Text} {c : Cut} : quote ∉ t → IsContent q (q ++ quote :: m) → Of m c →
      Of (t ++ quote :: (q ++ quote :: m)) ⟨(t, q) :: c.spans, c.tail, c.rest⟩

/-- Prose as it is, if there is any. -/
def proseSegments (t : Text) : List Segment := if t = [] then [] else [.text t none]

/-- A span as a segment: a type without its quotes, or else prose in backticks. -/
def spanSegment (q : Text) : Segment :=
  if isTypeLiteral q = true then .code q "typescript" else .text ("`" ++ q ++ "`") none

/-- The pieces as segments, in order. -/
def segments (c : Cut) : List Segment :=
  (c.spans.flatMap fun (t, q) => proseSegments t ++ [spanSegment q]) ++ proseSegments c.tail ++
    proseSegments c.rest

end Cut

/-! ## The first quote of a message -/

/-- The prose before the first quote is what has no quote and stands before a quote or the end. -/
theorem beforeQuote_append {t r : Text} (ht : quote ∉ t) (hr : r = [] ∨ ∃ u, r = quote :: u) :
    beforeQuote (t ++ r) = t := by
  have hp : ∀ x ∈ t, decide (x ≠ quote) = true := fun x hx => by
    simpa using fun h : x = quote => ht (h ▸ hx)
  rw [beforeQuote, List.takeWhile_append_of_pos hp]
  rcases hr with rfl | ⟨u, rfl⟩ <;> simp

theorem fromQuote_append {t r : Text} (ht : quote ∉ t) (hr : r = [] ∨ ∃ u, r = quote :: u) :
    fromQuote (t ++ r) = r := by
  have h := beforeQuote_append_fromQuote (t ++ r)
  rw [beforeQuote_append ht hr] at h
  exact List.append_cancel_left h

theorem quote_not_mem_beforeQuote (m : Text) : quote ∉ beforeQuote m := fun h => by
  simpa using List.mem_takeWhile_imp h

theorem fromQuote_eq (m : Text) : fromQuote m = [] ∨ ∃ u, fromQuote m = quote :: u := by
  cases h : fromQuote m with
  | nil => exact .inl rfl
  | cons c u =>
    have hc := List.head?_dropWhile_not (fun x => decide (x ≠ quote)) m
    rw [← fromQuote, h] at hc
    exact .inr ⟨u, by simpa using hc⟩

/-! ## The segments follow the cut -/

theorem segments_prose {t : Text} (ht : quote ∉ t) : segments t = proseIfAny t := by
  have hb := beforeQuote_append ht (r := []) (.inl rfl)
  have hf := fromQuote_append ht (r := []) (.inl rfl)
  rw [List.append_nil] at hb hf
  rw [segments]
  split
  · rw [hb]
  · rename_i h
    rw [hf] at h
    cases h

theorem segments_open {t u : Text} (ht : quote ∉ t) (hu : closingQuote? {} u = none) :
    segments (t ++ quote :: u) = proseIfAny t ++ [.prose (quote :: u)] := by
  have hb := beforeQuote_append ht (r := quote :: u) (.inr ⟨u, rfl⟩)
  have hf := fromQuote_append ht (r := quote :: u) (.inr ⟨u, rfl⟩)
  rw [segments]
  split
  · rename_i h
    rw [hf] at h
    cases h
  · rename_i h
    rw [hf] at h
    cases h
    rw [hb, hu]

theorem segments_span {t u : Text} {n : Nat} (ht : quote ∉ t) (hu : closingQuote? {} u = some n) :
    segments (t ++ quote :: u) = proseIfAny t ++ span (u.take n) :: segments (u.drop (n + 1)) := by
  have hb := beforeQuote_append ht (r := quote :: u) (.inr ⟨u, rfl⟩)
  have hf := fromQuote_append ht (r := quote :: u) (.inr ⟨u, rfl⟩)
  rw [segments]
  split
  · rename_i h
    rw [hf] at h
    cases h
  · rename_i h
    rw [hf] at h
    cases h
    rw [hb, hu]

theorem proseIfAny_eq (t : Text) : proseIfAny t = Cut.proseSegments t := by
  cases t <;> simp [proseIfAny, Cut.proseSegments, Segment.prose]

theorem span_eq (q : Text) : span q = Cut.spanSegment q := rfl

/-- The content of a span is where its closing quote is found. -/
theorem closingQuote?_of_isContent {q m : Text} (h : IsContent q (q ++ quote :: m)) :
    closingQuote? {} (q ++ quote :: m) = some q.length := by
  rw [closingQuote?_eq_some_iff_isContent]
  simpa using h

/-- The text up to the closing quote is the content, and what stands behind the quote is segmented anew. -/
theorem segments_content {t q m : Text} (ht : quote ∉ t) (hq : IsContent q (q ++ quote :: m)) :
    segments (t ++ quote :: (q ++ quote :: m)) = proseIfAny t ++ span q :: segments m := by
  have htake : (q ++ quote :: m).take q.length = q := by simp
  have hdrop : (q ++ quote :: m).drop (q.length + 1) = m := by simp
  rw [segments_span ht (closingQuote?_of_isContent hq), htake, hdrop]

theorem segments_eq_of_cut {m : Text} {c : Cut} (h : Cut.Of m c) : segments m = c.segments := by
  induction h with
  | @rest t r ht hr =>
    rcases hr with rfl | ⟨u, rfl, hu⟩
    · simp [Cut.segments, segments_prose ht, proseIfAny_eq, Cut.proseSegments]
    · rw [segments_open ht (closingQuote?_eq_none_iff_closes.2 hu), proseIfAny_eq]
      simp [Cut.segments, Cut.proseSegments, Segment.prose]
  | @span t q m c ht hq _ ih =>
    rw [segments_content ht hq, proseIfAny_eq, span_eq, ih]
    simp [Cut.segments]

/-! ## Every message has exactly one cut -/

theorem exists_cut (m : Text) : ∃ c, Cut.Of m c := by
  induction hn : m.length using Nat.strong_induction_on generalizing m with
  | _ n ih =>
    have hm := beforeQuote_append_fromQuote m
    have ht := quote_not_mem_beforeQuote m
    rcases fromQuote_eq m with hf | ⟨u, hf⟩
    · have h := Cut.Of.rest ht (.inl hf)
      exact ⟨_, hm ▸ h⟩
    rw [hf] at hm
    cases hu : closingQuote? {} u with
    | none =>
      have h := Cut.Of.rest ht (.inr ⟨u, rfl, closingQuote?_eq_none_iff_closes.1 hu⟩)
      exact ⟨_, hm ▸ h⟩
    | some k =>
      obtain ⟨hq, hk⟩ := closingQuote?_eq_some_iff_isContent.1 hu
      have hu' : u.take k ++ quote :: u.drop (k + 1) = u := by
        have hget := hq.1.getElem?
        rw [List.length_take, Nat.min_eq_left (by omega), List.getElem?_eq_getElem hk] at hget
        rw [← Option.some.inj hget, List.getElem_cons_drop, List.take_append_drop]
      have hlen : (u.drop (k + 1)).length < n := by
        rw [← hn, ← hm, List.length_drop, List.length_append, List.length_cons]
        omega
      obtain ⟨c, hc⟩ := ih _ hlen _ rfl
      have hq' : IsContent (u.take k) (u.take k ++ quote :: u.drop (k + 1)) := by rwa [hu']
      have h := Cut.Of.span ht hq' hc
      rw [hu', hm] at h
      exact ⟨_, h⟩

theorem cut_unique {m : Text} {c d : Cut} (hc : Cut.Of m c) (hd : Cut.Of m d) : c = d := by
  -- The prose before the first quote and the text from it on are the same in both cuts.
  induction hc generalizing d with
  | @rest t r ht hr =>
    have hr' : r = [] ∨ ∃ u, r = quote :: u := hr.imp_right fun ⟨u, h, _⟩ => ⟨u, h⟩
    generalize hm : t ++ r = m at hd
    have hb := beforeQuote_append ht hr'
    have hf := fromQuote_append ht hr'
    cases hd with
    | @rest t' r' ht' hr₂ =>
      have hr₂' : r' = [] ∨ ∃ u, r' = quote :: u := hr₂.imp_right fun ⟨u, h, _⟩ => ⟨u, h⟩
      rw [hm, beforeQuote_append ht' hr₂'] at hb
      rw [hm, fromQuote_append ht' hr₂'] at hf
      rw [hb, hf]
    | @span t' q m' c' ht' hq hc' =>
      rw [hm, fromQuote_append ht' (.inr ⟨_, rfl⟩)] at hf
      rcases hr with rfl | ⟨u, rfl, hu⟩
      · cases hf
      · cases hf
        exact absurd hq.1 (hu q)
  | @span t q m c ht hq _ ih =>
    have hb := beforeQuote_append ht (r := quote :: (q ++ quote :: m)) (.inr ⟨_, rfl⟩)
    have hf := fromQuote_append ht (r := quote :: (q ++ quote :: m)) (.inr ⟨_, rfl⟩)
    generalize hm : t ++ quote :: (q ++ quote :: m) = w at hd hb hf
    cases hd with
    | @rest t' r' ht' hr₂ =>
      have hr₂' : r' = [] ∨ ∃ u, r' = quote :: u := hr₂.imp_right fun ⟨u, h, _⟩ => ⟨u, h⟩
      rw [fromQuote_append ht' hr₂'] at hf
      rcases hr₂ with rfl | ⟨u, rfl, hu⟩
      · cases hf
      · cases hf
        exact absurd hq.1 (hu q)
    | @span t' q' m' c' ht' hq' hc' =>
      rw [beforeQuote_append ht' (.inr ⟨_, rfl⟩)] at hb
      rw [fromQuote_append ht' (.inr ⟨_, rfl⟩)] at hf
      have htail : q' ++ quote :: m' = q ++ quote :: m := (List.cons.inj hf).2
      rw [htail] at hq'
      have hqq : q' = q := hq'.unique hq
      subst hqq hb
      obtain rfl : m' = m := (List.cons.inj (List.append_cancel_left htail)).2
      rw [ih hc']

/-! ## Nothing is lost -/

/-- The part of a message that a segment shows: prose as it is, or a span, whose quotes are dropped. -/
inductive Shows : Segment → Text → Prop
  | prose (t : Text) : t ≠ [] → Shows (.text t none) t
  | type (q : Text) : isTypeLiteral q = true → Shows (.code q "typescript") (quote :: (q ++ [quote]))
  | span (q : Text) : isTypeLiteral q = false → Shows (.text ("`" ++ q ++ "`") none) (quote :: (q ++ [quote]))

theorem Shows.content_ne_nil {s : Segment} {t : Text} (h : Shows s t) : s.content ≠ [] := by
  cases h with
  | prose t ht => exact ht
  | type q hq =>
    rintro (rfl : q = [])
    revert hq
    decide
  | span q hq => simp [Segment.content, Text.ofString]

theorem shows_spanSegment (q : Text) : Shows (Cut.spanSegment q) (quote :: (q ++ [quote])) := by
  cases hq : isTypeLiteral q with
  | true => simpa [Cut.spanSegment, hq] using Shows.type q hq
  | false => simpa [Cut.spanSegment, hq] using Shows.span q hq

theorem shows_proseSegments (t : Text) :
    ∃ parts, List.Forall₂ Shows (Cut.proseSegments t) parts ∧ parts.flatten = t := by
  by_cases ht : t = []
  · exact ⟨[], by simp [Cut.proseSegments, ht], by simp [ht]⟩
  · exact ⟨[t], by simpa [Cut.proseSegments, ht] using Shows.prose t ht, by simp⟩

theorem Cut.shows {m : Text} {c : Cut} (h : Cut.Of m c) :
    ∃ parts, List.Forall₂ Shows c.segments parts ∧ parts.flatten = m := by
  induction h with
  | @rest t r _ _ =>
    obtain ⟨ps, hps, rfl⟩ := shows_proseSegments t
    obtain ⟨rs, hrs, rfl⟩ := shows_proseSegments r
    exact ⟨ps ++ rs, by simpa [segments] using List.rel_append hps hrs, by simp⟩
  | @span t q m c _ _ _ ih =>
    obtain ⟨ps, hps, rfl⟩ := shows_proseSegments t
    obtain ⟨rest, hrest, rfl⟩ := ih
    refine ⟨ps ++ (quote :: (q ++ [quote])) :: rest, ?_, by simp⟩
    simpa [segments] using List.rel_append hps (.cons (shows_spanSegment q) hrest)

theorem Shows.all_content_ne_nil {ss : List Segment} {parts : List Text} (h : List.Forall₂ Shows ss parts) :
    ∀ s ∈ ss, s.content ≠ [] := by
  induction h with
  | nil => simp
  | cons h _ ih =>
    intro s hs
    rcases List.mem_cons.1 hs with rfl | hs
    · exact h.content_ne_nil
    · exact ih s hs

theorem Shows.exists_part {ss : List Segment} {parts : List Text} (h : List.Forall₂ Shows ss parts) {s : Segment}
    (hs : s ∈ ss) : ∃ part ∈ parts, Shows s part := by
  induction h with
  | nil => cases hs
  | cons hshow _ ih =>
    rcases List.mem_cons.mp hs with rfl | hs
    · exact ⟨_, List.mem_cons_self, hshow⟩
    · obtain ⟨part, hpart, hshow⟩ := ih hs
      exact ⟨part, List.mem_cons_of_mem _ hpart, hshow⟩

/-- What a segment shows stands in the message. -/
theorem exists_shows_of_mem_segments {m : Text} {s : Segment} (hs : s ∈ segments m) :
    ∃ part, Shows s part ∧ part <:+: m := by
  obtain ⟨c, hc⟩ := exists_cut m
  obtain ⟨parts, hshows, rfl⟩ := Cut.shows hc
  rw [segments_eq_of_cut hc] at hs
  obtain ⟨part, hpart, hshow⟩ := Shows.exists_part hshows hs
  exact ⟨part, hshow, List.infix_of_mem_flatten hpart⟩

/-- The segments of a message are its grammar: there is exactly one cut, and they are read off it. So no
segment is empty, the segments show the whole message in order, and a message that is missing or empty
has none. -/
theorem segments_are_the_cut (m : Text) :
    (∃! c, Cut.Of m c) ∧ (∀ c, Cut.Of m c → segmentsOf? (some m) = c.segments) ∧
      (∀ s ∈ segmentsOf? (some m), s.content ≠ []) ∧
      (∃ parts, List.Forall₂ Shows (segmentsOf? (some m)) parts ∧ parts.flatten = m) ∧
      segmentsOf? none = [] ∧ segmentsOf? (some []) = [] := by
  obtain ⟨c, hc⟩ := exists_cut m
  have hs : segmentsOf? (some m) = c.segments := segments_eq_of_cut hc
  obtain ⟨parts, hparts, hm⟩ := Cut.shows hc
  rw [← hs] at hparts
  exact ⟨⟨c, hc, fun d hd => cut_unique hd hc⟩, fun d hd => segments_eq_of_cut hd,
    Shows.all_content_ne_nil hparts, ⟨parts, hparts, hm⟩, rfl, segments_prose (by simp)⟩

end Legible.Message
