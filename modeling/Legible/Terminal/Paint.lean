import Legible.Terminal.Style
/-!
Paint that goes on around what is painted inside it: where a part of the text ends the same attribute, the
paint starts again behind it; parts between two sequences that end every style stand outside, and so do line
ends.
-/

namespace Legible

/-- Sequences that start attributes, each with the one that ends it. -/
structure Paint where
  layers : List (Text × Text)
deriving DecidableEq, Repr

namespace Paint

def ofInk (i : Ink) : Paint := ⟨[(Style.sequence (i.codes false), Style.sequence (Ink.own.codes false))]⟩

def dimRed : Paint := ⟨(Style.sequence "2", Style.sequence "22") :: (ofInk (.named .red false)).layers⟩

def opening (p : Paint) : Text := p.layers.flatMap (·.1)

def closing (p : Paint) : Text := p.layers.flatMap (·.2)

/-- Starts each layer again where the text ends it. -/
def reopened (p : Paint) (t : Text) : Text :=
  p.layers.foldl (fun t (on, off) => Text.replace off (off ++ on) t) t

/-- The text up to the next sequence that ends every style, which is included, if there is one on the
line. -/
def upToPlain? : Text → Option Text
  | [] => none
  | c :: r =>
    if Style.plain.isPrefixOf (c :: r) then some Style.plain
    else if c.isNewline then none
    else (upToPlain? r).map (c :: ·)

/-- Ends the paint around parts between two sequences that end every style; `skip` characters are already
written. -/
def spared (p : Paint) (skip : Nat) : Text → Text
  | [] => []
  | c :: r =>
    if 0 < skip then spared p (skip - 1) r
    else
      let part? : Option Text := match Text.dropStart? Style.plain (c :: r) with
        | some behind => upToPlain? behind
        | none => none
      match part? with
      | some part =>
        p.closing ++ Style.plain ++ part ++ p.opening ++ spared p (Style.plain.length + part.length - 1) r
      | none => c :: spared p 0 r

/-- A text with paint on each line, but not on what ends the line. -/
def onLines (p : Paint) (t : Text) : Text :=
  let line (l : Text) : Text :=
    if Text.endsWith l "\r" then l.dropLast ++ p.closing ++ "\r" else l ++ p.closing
  match (t.splitAtEach '\n').reverse with
  | [] => []
  | last :: before =>
    (before.reverse.flatMap fun l => p.opening ++ line l ++ Text.newline) ++ p.opening ++ last ++ p.closing

def apply (p : Paint) (t : Text) : Text := p.onLines (p.spared 0 (p.reopened t))

end Paint

end Legible
