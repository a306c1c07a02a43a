import Legible.Message.Quote
import Legible.Message.TypeLiteral
import Legible.Text.Quoted
/-!
A message as a sequence of segments, prose and code.
-/

namespace Legible

inductive SegmentKind where
  | text
  | code
deriving DecidableEq, Repr

namespace SegmentKind

def name : SegmentKind → Text
  | text => "text"
  | code => "code"

def ofName? (t : Text) : Option SegmentKind := [text, code].find? (·.name = t)

/-- What is said of a name that no kind has. -/
def unknownMessage (t : Text) : Text := Quoted.encode t ++ " is not a valid SegmentKind"

end SegmentKind

/-- A part of a message. Code always has a language, prose seldom. -/
inductive Segment where
  | text (content : Text) (lang : Option Text)
  | code (content lang : Text)
deriving DecidableEq, Repr

namespace Segment

/-- The language of the types in messages. -/
def defaultLang : Text := "typescript"

/-- A segment of a kind. Code without a language is in the default one. -/
def make (kind : SegmentKind) (content : Text) (lang : Option Text) : Segment :=
  match kind with
  | .text => .text content lang
  | .code => .code content (lang.getD defaultLang)

def prose (content : Text) : Segment := .text content none

def type (content : Text) : Segment := .code content defaultLang

/-- Prose or code. -/
def kind : Segment → SegmentKind
  | text .. => .text
  | code .. => .code

def content : Segment → Text
  | text c _ => c
  | code c _ => c

def lang : Segment → Option Text
  | text _ l => l
  | code _ l => some l

def isCode : Segment → Bool
  | text .. => false
  | code .. => true

/-- The same segment with other text. -/
def withContent (s : Segment) (content : Text) : Segment :=
  match s with
  | text _ l => .text content l
  | code _ l => .code content l

end Segment

namespace Message

/-- Prose, unless it is empty. -/
def proseIfAny (t : Text) : List Segment := if t.isEmpty then [] else [.prose t]

/-- A quoted span: a type, or prose in backticks. -/
def span (t : Text) : Segment :=
  if isTypeLiteral t then .type t else .prose ("`" ++ t ++ "`")

/-- The text before the first quote. -/
def beforeQuote (m : Text) : Text := m.takeWhile (· ≠ quote)

/-- The text from the first quote on. -/
def fromQuote (m : Text) : Text := m.dropWhile (· ≠ quote)

theorem beforeQuote_append_fromQuote (m : Text) : beforeQuote m ++ fromQuote m = m :=
  List.takeWhile_append_dropWhile

/-- The segments of a message, in order. The quotes of a span are dropped; a quote without a partner
makes the rest of the message prose. -/
def segments (m : Text) : List Segment :=
  match _h : fromQuote m with
  | [] => proseIfAny (beforeQuote m)
  | q :: rest =>
    proseIfAny (beforeQuote m) ++
      match closingQuote? {} rest with
      | none => [.prose (q :: rest)]
      | some n => span (rest.take n) :: segments (rest.drop (n + 1))
termination_by m.length
decreasing_by
  have hl := congrArg List.length (beforeQuote_append_fromQuote m)
  rw [_h] at hl
  simp only [List.length_append, List.length_cons] at hl
  simp only [List.length_drop]
  omega

/-- The segments of a message that may be missing. -/
def segmentsOf? : Option Text → List Segment
  | none => []
  | some m => segments m

end Message

end Legible
