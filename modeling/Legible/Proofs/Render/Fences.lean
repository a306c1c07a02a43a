import Legible.Render.Markdown
import Legible.Proofs.Files.Path
import Legible.Proofs.Message.Rebuilding
/-!
# Fences around code

A reader of Markdown finds blocks of code by their fences. A line that starts with three backticks opens a block, and
the next line of nothing but backticks, three or more, closes it (`read`). A type is shown in a block and prose outside
of all, but neither is escaped: a line of prose may open a block, and a line of code may close one.

These are the only ways to be misread. What is read is what was shown just if no segment has such a line, since one
segment leaves the reader outside of all blocks for the next one (`readFrom_segment`).
-/

namespace Legible

open Message (backtick segments)

/-! ## Lines -/

namespace Text

theorem splitAtEach_append_cons (c : CodePoint) (t u : Text) :
    splitAtEach c (t ++ c :: u) = splitAtEach c t ++ splitAtEach c u := by
  induction t with
  | nil => exact splitAtEach_append List.not_mem_nil u
  | cons x t ih =>
    by_cases hx : x = c
    · rw [List.cons_append, splitAtEach, if_pos hx, ih, splitAtEach, if_pos hx, List.cons_append]
    · obtain ⟨p, ps, hs, hcons⟩ := splitAtEach_cons hx t
      rw [hs] at ih
      rw [List.cons_append, splitAtEach, if_neg hx, ih, hcons]
      rfl

/-- The lines of lines are their lines. -/
theorem splitAtEach_unlines {ls : List Text} (hls : ls ≠ []) :
    splitAtEach '\n' (unlines ls) = ls.flatMap (splitAtEach '\n') := by
  induction ls with
  | nil => exact absurd rfl hls
  | cons l ls ih =>
    cases ls with
    | nil => simp [unlines, join]
    | cons k ls =>
      have hjoin : unlines (l :: k :: ls) = l ++ CodePoint.ofChar '\n' :: unlines (k :: ls) := by
        simp [unlines, join, newline, ofString]
      rw [hjoin, splitAtEach_append_cons, ih (List.cons_ne_nil k ls), List.flatMap_cons (x := l)]

theorem flatMap_splitAtEach {c : CodePoint} {ls : List Text} (h : ∀ l ∈ ls, c ∉ l) :
    ls.flatMap (splitAtEach c) = ls := by
  rw [List.flatMap_congr fun l hl => splitAtEach_of_not_mem (h l hl)]
  exact List.flatMap_singleton' ls

theorem unlines_eq_nil {ls : List Text} (h : unlines ls = []) : ls = [] ∨ ls = [[]] := by
  match ls with
  | [] => exact .inl rfl
  | [l] => exact .inr (congrArg (fun l => [l]) h)
  | l :: k :: ls => simp [unlines, join, newline, ofString] at h

theorem sublist_of_mem_splitAtEach {c : CodePoint} {t l : Text} (hl : l ∈ splitAtEach c t) : l.Sublist t := by
  induction t generalizing l with
  | nil =>
    cases List.mem_singleton.mp hl
    exact .slnil
  | cons x t ih =>
    by_cases hx : x = c
    · rw [splitAtEach, if_pos hx] at hl
      rcases List.mem_cons.mp hl with rfl | hl
      · exact List.nil_sublist _
      · exact (ih hl).cons x
    · obtain ⟨p, ps, hs, hcons⟩ := splitAtEach_cons hx t
      rw [hcons] at hl
      rcases List.mem_cons.mp hl with rfl | hl
      · exact (ih (hs ▸ List.mem_cons_self)).cons_cons x
      · exact (ih (hs ▸ List.mem_cons_of_mem p hl)).cons x

theorem trim_sublist (t : Text) : t.trim.Sublist t := by
  have hend : t.trim.Sublist t.trimStart := by
    simpa [trim, trimEnd, dropEndWhile] using (List.dropWhile_sublist (l := t.trimStart.reverse) CodePoint.isBlank).reverse
  exact hend.trans (List.dropWhile_sublist _)

end Text

/-! ## A reader of blocks -/

namespace Markdown

/-- A block of code: what follows the backticks of its opening line, and its lines. -/
structure Block where
  info : Text
  lines : List Text
deriving DecidableEq

/-- What a document holds: lines outside of all blocks, blocks, and at its end perhaps one that nothing closes. -/
inductive Piece where
  | line (l : Text)
  | block (b : Block)
  | unclosed (b : Block)
deriving DecidableEq

/-- The line starts with three backticks. -/
def opens (l : Text) : Bool := l.startsWith "```"

/-- The line consists of three or more backticks. -/
def closes (l : Text) : Bool := 3 ≤ l.length && l.all (· = backtick)

/-- Reads lines, inside a block with the lines it has so far, or outside of all. -/
def readFrom : Option Block → List Text → List Piece
  | none, [] => []
  | none, l :: rest => if opens l then readFrom (some ⟨l.drop 3, []⟩) rest else .line l :: readFrom none rest
  | some b, [] => [.unclosed b]
  | some b, l :: rest =>
    if closes l then .block b :: readFrom none rest else readFrom (some { b with lines := b.lines ++ [l] }) rest

/-- Reads a document. Without characters it has no lines. -/
def read (document : Text) : List Piece :=
  if document.isEmpty then [] else readFrom none (document.splitAtEach '\n')

/-- What a segment is to be read as: code as one block of its lines that are not empty, between two empty lines, and
prose as the lines it has without the white space around it. -/
def pieces : Segment → List Piece
  | .code content lang => [.line [], .block ⟨lang, (content.splitAtEach '\n').filter (· ≠ [])⟩, .line []]
  | .text content _ => if content.trim = [] then [] else (content.trim.splitAtEach '\n').map .line

/-- No line of the segment is taken for a fence where it is shown. -/
def IsFenceless : Segment → Prop
  | .code content _ => ∀ l ∈ content.splitAtEach '\n', closes l = false
  | .text content _ => ∀ l ∈ content.trim.splitAtEach '\n', opens l = false

/-- The language of code can stand behind a fence. -/
def IsLabelled : Segment → Prop
  | .code _ lang => lang ≠ [] ∧ CodePoint.ofChar '\n' ∉ lang
  | .text .. => True

/-! ## What is read of one segment -/

/-- What is read inside of a block does not start outside. -/
theorem readFrom_some_ne_line (b : Block) (ls : List Text) (l : Text) (ps : List Piece) :
    readFrom (some b) ls ≠ .line l :: ps := by
  induction ls generalizing b with
  | nil => simp [readFrom]
  | cons k ls ih =>
    rw [readFrom]
    split
    · simp
    · exact ih _

/-- Lines are read as lines just if none of them opens a block. -/
theorem readFrom_lines_iff (ls rest : List Text) (ps : List Piece) :
    readFrom none (ls ++ rest) = ls.map .line ++ ps ↔ (∀ l ∈ ls, opens l = false) ∧ readFrom none rest = ps := by
  induction ls with
  | nil => simp
  | cons l ls ih =>
    rw [List.cons_append, readFrom, List.map_cons, List.cons_append, List.forall_mem_cons]
    cases hl : opens l with
    | true => simpa using readFrom_some_ne_line _ _ _ _
    | false => simpa using ih

/-- Inside of a block, lines are read as its lines just if none of them closes it. -/
theorem readFrom_block_iff (b : Block) (ls rest : List Text) (ps : List Piece) :
    readFrom (some b) (ls ++ fence :: rest) = .block { b with lines := b.lines ++ ls } :: ps ↔
      (∀ l ∈ ls, closes l = false) ∧ readFrom none rest = ps := by
  -- a block that is closed too early lacks the lines that are still to come
  induction ls generalizing b with
  | nil =>
    have hfence : closes fence = true := by decide
    simp [readFrom, hfence]
  | cons l ls ih =>
    rw [List.cons_append, readFrom, List.forall_mem_cons]
    cases hl : closes l with
    | true =>
      have hshort : b ≠ { b with lines := b.lines ++ l :: ls } := fun h => by
        simpa using congrArg (fun b : Block => b.lines.length) h
      simp [hshort]
    | false =>
      have hlines : b.lines ++ l :: ls = b.lines ++ [l] ++ ls := by simp
      rw [if_neg Bool.false_ne_true, hlines]
      simpa using ih { b with lines := b.lines ++ [l] }

/-- The lines of a block: no line feed is left in any of them. -/
theorem flatMap_segmentLines_code {content lang : Text} (hlang : lang ≠ []) (hfeed : CodePoint.ofChar '\n' ∉ lang) :
    (segmentLines (.code content lang)).flatMap (Text.splitAtEach '\n') =
      [] :: (fence ++ lang) :: ((content.splitAtEach '\n').filter (· ≠ []) ++ [fence, []]) := by
  have hfence : CodePoint.ofChar '\n' ∉ fence := by decide
  have hbody : ((content.splitAtEach '\n').filter fun l => !l.isEmpty) = (content.splitAtEach '\n').filter (· ≠ []) :=
    List.filter_congr fun l _ => by cases l <;> simp
  have hlines : segmentLines (.code content lang) =
      [] :: (fence ++ lang) :: ((content.splitAtEach '\n').filter (· ≠ []) ++ [fence, []]) := by
    simp [segmentLines, hbody, hlang]
  rw [hlines]
  refine Text.flatMap_splitAtEach fun l hl => ?_
  simp only [List.mem_cons, List.mem_append, List.not_mem_nil, or_false] at hl
  rcases hl with rfl | rfl | hl | rfl | rfl
  · exact List.not_mem_nil
  · simpa using ⟨hfence, hfeed⟩
  · exact Text.not_mem_of_mem_splitAtEach (List.mem_filter.mp hl).1
  · exact hfence
  · exact List.not_mem_nil

/-- Empty lines close nothing, so it is all one whether they are dropped. -/
theorem closes_filter_iff {ls : List Text} :
    (∀ l ∈ ls.filter (· ≠ []), closes l = false) ↔ ∀ l ∈ ls, closes l = false := by
  have hnil : closes [] = false := by decide
  refine ⟨fun h l hl => ?_, fun h l hl => h l (List.mem_filter.mp hl).1⟩
  by_cases hne : l = []
  · exact hne ▸ hnil
  · exact h l (List.mem_filter.mpr ⟨hl, by simpa using hne⟩)

/-- One segment is read as its pieces, and leaves the reader outside of all blocks, just if it has no line that is
taken for a fence. -/
theorem readFrom_segment {s : Segment} (hs : IsLabelled s) {rest : List Text} {ps : List Piece} :
    readFrom none ((segmentLines s).flatMap (Text.splitAtEach '\n') ++ rest) = pieces s ++ ps ↔
      IsFenceless s ∧ readFrom none rest = ps := by
  cases s with
  | text content lang =>
    by_cases hblank : content.trim = []
    · have hnone : opens [] = false := by decide
      simp [segmentLines, pieces, IsFenceless, hblank, Text.splitAtEach, hnone]
    · simpa [segmentLines, pieces, IsFenceless, hblank] using readFrom_lines_iff _ rest ps
  | code content lang =>
    obtain ⟨hlang, hfeed⟩ := hs
    have hopen : opens (fence ++ lang) = true := by simp [opens, Text.startsWith, fence]
    have hdrop : (fence ++ lang).drop 3 = lang := rfl
    have hnil : opens [] = false := by decide
    have hblock :=
      readFrom_block_iff ⟨lang, []⟩ ((content.splitAtEach '\n').filter (· ≠ [])) ([] :: rest) (.line [] :: ps)
    rw [closes_filter_iff] at hblock
    rw [flatMap_segmentLines_code hlang hfeed]
    simpa [readFrom, hnil, hopen, hdrop, pieces, IsFenceless] using hblock

/-! ## What is read of a document -/

theorem readFrom_segments {segs : List Segment} (hsegs : ∀ s ∈ segs, IsLabelled s) :
    readFrom none ((lines segs).flatMap (Text.splitAtEach '\n')) = segs.flatMap pieces ↔
      ∀ s ∈ segs, IsFenceless s := by
  induction segs with
  | nil => simp [lines, readFrom]
  | cons s segs ih =>
    obtain ⟨hs, hsegs⟩ := List.forall_mem_cons.mp hsegs
    have hlines : lines (s :: segs) = segmentLines s ++ lines segs := List.flatMap_cons
    rw [hlines, List.flatMap_append, List.flatMap_cons (f := pieces), readFrom_segment hs, ih hsegs,
      List.forall_mem_cons]

/-- Segments without lines are the only ones that make no text. -/
theorem unlines_lines_eq_nil_iff {segs : List Segment} : Text.unlines (lines segs) = [] ↔ lines segs = [] := by
  refine ⟨fun h => (Text.unlines_eq_nil h).resolve_right fun hone => ?_, fun h => congrArg Text.unlines h⟩
  -- an empty line stands only beside a fence
  have hnil : [] ∈ lines segs := hone ▸ List.mem_singleton_self _
  obtain ⟨s, hs, hmem⟩ := List.mem_flatMap.mp hnil
  have hfence : fence ∈ lines segs := by
    refine List.mem_flatMap.mpr ⟨s, hs, ?_⟩
    cases s with
    | text content lang =>
      simp only [segmentLines] at hmem
      split at hmem
      · cases hmem
      · simp_all
    | code content lang => simp [segmentLines]
  rw [hone] at hfence
  exact absurd hfence (by decide)

/-- Segments are read back from their Markdown just if none of their lines is taken for a fence. -/
theorem read_segments_iff {segs : List Segment} (hsegs : ∀ s ∈ segs, IsLabelled s) :
    read (Text.unlines (lines segs)) = segs.flatMap pieces ↔ ∀ s ∈ segs, IsFenceless s := by
  rw [← readFrom_segments hsegs, read]
  by_cases hlines : lines segs = []
  · simp [hlines, Text.unlines, Text.join, readFrom]
  · rw [if_neg (by simpa [unlines_lines_eq_nil_iff] using hlines), Text.splitAtEach_unlines hlines]

/-! ## The segments of a message -/

theorem isLabelled_of_mem_segments {m : Text} {s : Segment} (hs : s ∈ segments m) : IsLabelled s := by
  obtain ⟨part, hshow, -⟩ := Message.exists_shows_of_mem_segments hs
  cases hshow with
  | prose | span => trivial
  | type q _ => exact ⟨by decide, by decide⟩

/-- A span adds two backticks, and nothing else adds any. -/
theorem count_backtick_le {m : Text} {s : Segment} (hs : s ∈ segments m) :
    s.content.count backtick ≤ m.count backtick + 2 := by
  obtain ⟨part, hshow, hpart⟩ := Message.exists_shows_of_mem_segments hs
  have hinner (q : Text) : q.Sublist (Message.quote :: (q ++ [Message.quote])) :=
    (List.sublist_append_left q _).cons _
  cases hshow with
  | prose t _ => exact (hpart.sublist.count_le backtick).trans (Nat.le_add_right _ 2)
  | type q _ => exact (((hinner q).trans hpart.sublist).count_le backtick).trans (Nat.le_add_right _ 2)
  | span q _ =>
    have hq := ((hinner q).trans hpart.sublist).count_le backtick
    have htick : ("`" : Text).count backtick = 1 := by decide
    simp only [Segment.content, List.count_append, htick]
    omega

theorem opens_of_count {l : Text} (hl : l.count backtick ≤ 2) : opens l = false := by
  by_contra h
  have hprefix : ("```" : Text) <+: l := List.isPrefixOf_iff_prefix.mp (Bool.of_not_eq_false h)
  have hthree : 3 ≤ l.count backtick := hprefix.sublist.count_le backtick
  omega

theorem closes_of_count {l : Text} (hl : l.count backtick ≤ 2) : closes l = false := by
  by_contra h
  have hcloses := Bool.of_not_eq_false h
  simp only [closes, Bool.and_eq_true, decide_eq_true_eq, List.all_eq_true] at hcloses
  obtain ⟨hlength, hall⟩ := hcloses
  have hcount : l.count backtick = l.length := List.count_eq_length.mpr fun c hc => (hall c hc).symm
  omega

/-- Two backticks make no fence. -/
theorem isFenceless_of_count {s : Segment} (hs : s.content.count backtick ≤ 2) : IsFenceless s := by
  cases s with
  | text content lang =>
    intro l hl
    have hsub := (Text.sublist_of_mem_splitAtEach hl).trans content.trim_sublist
    exact opens_of_count ((hsub.count_le backtick).trans hs)
  | code content lang =>
    intro l hl
    exact closes_of_count (((Text.sublist_of_mem_splitAtEach hl).count_le backtick).trans hs)

/-- The fences that a message is shown with enclose its types just if nothing else in it looks like one. What is read of
its Markdown has a block for every type, in order, with the language behind the opening fence and the lines of the type
that are not empty, and everything else outside of all blocks, if and only if no line of its trimmed prose starts with
three backticks and no line of a type consists of three or more. So it is for every message without backticks. -/
theorem fences_enclose_types_iff (m : Text) :
    (read (Text.unlines (lines (segments m))) = (segments m).flatMap pieces ↔ ∀ s ∈ segments m, IsFenceless s) ∧
      (backtick ∉ m → read (Text.unlines (lines (segments m))) = (segments m).flatMap pieces) := by
  have hread := read_segments_iff fun s (hs : s ∈ segments m) => isLabelled_of_mem_segments hs
  refine ⟨hread, fun hm => hread.mpr fun s hs => isFenceless_of_count ?_⟩
  simpa [List.count_eq_zero.mpr hm] using count_backtick_le hs

/-- A quoted backtick is shown as a fence, and its block takes in the type behind it. A type is cut at a line of
backticks of its own. -/
theorem stray_fences_are_taken_for_fences :
    let quoted : Text := "Expected '`' in type '{ a: string; b: number; c: boolean }'."
    let typed : Text := "Type 'Map<string,\n```\nnumber | undefined>' is bad."
    read (Text.unlines (lines (segments quoted))) = [.line "Expected",
        .block ⟨[], ["in type", "", "```typescript", "{ a: string; b: number; c: boolean }"]⟩, .line "", .line "."] ∧
      (segments quoted).flatMap pieces = [.line "Expected", .line "```", .line "in type", .line "",
        .block ⟨"typescript", ["{ a: string; b: number; c: boolean }"]⟩, .line "", .line "."] ∧
      read (Text.unlines (lines (segments typed))) = [.line "Type", .line "", .block ⟨"typescript", ["Map<string,"]⟩,
        .line "number | undefined>", .unclosed ⟨[], ["", "is bad."]⟩] ∧
      read (Text.unlines (lines (segments quoted))) ≠ (segments quoted).flatMap pieces ∧
      read (Text.unlines (lines (segments typed))) ≠ (segments typed).flatMap pieces := by
  decide +kernel

end Markdown

end Legible
