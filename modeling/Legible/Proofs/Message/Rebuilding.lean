import Legible.Proofs.Message.Grammar
import Mathlib.Data.Set.Function
/-!
# Reading a message back

Segments do not say where they came from: the quotes of a span are dropped, and a span that is no type has backticks
instead. A reader of segments puts the quotes back by the look of each segment alone. In a message without backticks
only spans have any, so what it puts together is the message, and no two such messages have the same segments.
-/

namespace Legible.Message

/-- The mark around a span that is no type. -/
def backtick : CodePoint := '`'

/-- The part of a message that a segment seems to come from: code stood in quotes, and so did what stands in
backticks. -/
def sourceOf : Segment → Text
  | .code c _ => quote :: (c ++ [quote])
  | .text c _ =>
    if 2 ≤ c.length ∧ c.head? = some backtick ∧ c.getLast? = some backtick then
      quote :: (c.tail.dropLast ++ [quote])
    else c

/-- The message that segments seem to come from. -/
def rebuild (ss : List Segment) : Text := ss.flatMap sourceOf

theorem sourceOf_prose {t : Text} (ht : backtick ∉ t) (lang : Option Text) : sourceOf (.text t lang) = t :=
  if_neg fun ⟨_, hhead, _⟩ => ht (List.mem_of_mem_head? hhead)

/-- One backtick alone is no pair of them, and two are a pair around nothing. -/
theorem sourceOf_ticked (q : Text) (lang : Option Text) :
    sourceOf (.text ("`" ++ q ++ "`") lang) = quote :: (q ++ [quote]) := by
  have htext : ("`" ++ q ++ "`" : Text) = backtick :: (q ++ [backtick]) := rfl
  have hlast : (backtick :: (q ++ [backtick])).getLast? = some backtick := by
    rw [← List.cons_append, List.getLast?_concat]
  have hlength : 2 ≤ (backtick :: (q ++ [backtick])).length := by simp
  rw [htext, sourceOf, if_pos ⟨hlength, rfl, hlast⟩, List.tail_cons, List.dropLast_concat]

theorem Shows.sourceOf_eq {s : Segment} {part : Text} (h : Shows s part) (hpart : backtick ∉ part) :
    sourceOf s = part := by
  cases h with
  | prose t _ => exact sourceOf_prose hpart none
  | type q _ => rfl
  | span q _ => exact sourceOf_ticked q none

theorem rebuild_eq_flatten {ss : List Segment} {parts : List Text} (h : List.Forall₂ Shows ss parts)
    (hparts : backtick ∉ parts.flatten) : rebuild ss = parts.flatten := by
  induction h with
  | nil => rfl
  | @cons s part ss parts hs _ ih =>
    rw [List.flatten_cons, List.mem_append, not_or] at hparts
    rw [List.flatten_cons, ← hs.sourceOf_eq hparts.1, ← ih hparts.2]
    rfl

theorem rebuild_segments {m : Text} (hm : backtick ∉ m) : rebuild (segments m) = m := by
  obtain ⟨c, hc⟩ := exists_cut m
  obtain ⟨parts, hparts, rfl⟩ := Cut.shows hc
  rw [segments_eq_of_cut hc]
  exact rebuild_eq_flatten hparts hm

/-- A message without backticks is read back from its segments. So no two of them have the same segments. -/
theorem segments_are_reversible {m : Text} (hm : backtick ∉ m) :
    rebuild (segmentsOf? (some m)) = m ∧ Set.InjOn segments {m | backtick ∉ m} := by
  refine ⟨rebuild_segments hm, fun m hm m' hm' h => ?_⟩
  rw [← rebuild_segments hm, h, rebuild_segments hm']

/-- A type, a span that is none, an empty one, and a rest with a quote that opens nothing. -/
theorem mixed_message_is_reversible :
    let m : Text := "Type '{ a: string; b: number; c: boolean }' and 'x' and '' are not '(y' here"
    backtick ∉ m ∧
      segmentsOf? (some m) = [.prose "Type ", .type "{ a: string; b: number; c: boolean }", .prose " and ",
        .prose "`x`", .prose " and ", .prose "``", .prose " are not ", .prose "'(y' here"] ∧
      rebuild (segmentsOf? (some m)) = m := by
  intro m
  have hm : backtick ∉ m := by decide
  exact ⟨hm, by decide +kernel, (segments_are_reversible hm).1⟩

end Legible.Message
