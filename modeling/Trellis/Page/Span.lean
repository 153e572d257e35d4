import Trellis.Page.Construct
/-!
# Page — spans and safe offsets

The spans of a page are its constructs with their places, read from the left.
An offset is safe when it is a character boundary and no span holds it strictly
inside; a span without its end holds everything behind its start. The queries
here find the nearest safe offsets and the tags of a name.
-/

namespace Trellis

namespace Page

/-- A stretch of a page, from one byte offset up to another. -/
structure Span where
  /-- Offset of the first byte. -/
  start : Nat
  /-- Offset one past the last byte. -/
  stop : Nat
  /-- What the stretch is. -/
  kind : SpanKind
  /-- False if the page ends before the construct does. -/
  closed : Bool
  deriving DecidableEq, Repr

/-- Whether an insertion at an offset would split a span. -/
def Span.splits (s : Span) (offset : Nat) : Bool :=
  s.start < offset && (offset < s.stop || !s.closed)

/-- A span with its text. -/
structure Piece where
  /-- Where it is. -/
  span : Span
  /-- Its text. -/
  text : List Char
  deriving DecidableEq, Repr

/-- The constructs of a text that starts at an offset, with their places. -/
def piecesFrom (offset : Nat) (cs : List Char) : List Piece :=
  match cs with
  | [] => []
  | c :: rest =>
    match _h : construct? (c :: rest) with
    | some k =>
      let stop := offset + Text.width k.text
      ⟨⟨offset, stop, k.kind, k.closed⟩, k.text⟩ :: piecesFrom stop k.rest
    | none => piecesFrom (offset + c.utf8Size) rest
termination_by cs.length
decreasing_by
  · exact length_of_construct? _h
  · simp

end Page

/-- A page with its constructs. -/
structure Page where
  /-- The text of the page. -/
  text : List Char
  /-- Its constructs, from the left. -/
  pieces : List Page.Piece

namespace Page

/-- **The page of a text.** -/
def scan (text : List Char) : Page :=
  { text, pieces := piecesFrom 0 text }

/-- The spans of a page, from the left. -/
def spans (p : Page) : List Span :=
  p.pieces.map Piece.span

/-- Number of bytes of a page. -/
def size (p : Page) : Nat :=
  Text.width p.text

/-- The spans with the gaps from an offset on filled by plain ones. -/
def filledFrom (size : Nat) (offset : Nat) : List Span → List Span
  | [] => if offset < size then [⟨offset, size, .plain, true⟩] else []
  | s :: rest =>
    let more := s :: filledFrom size s.stop rest
    if offset < s.start then ⟨offset, s.start, .plain, true⟩ :: more else more

/-- **The spans of a page without gaps.** -/
def allSpans (p : Page) : List Span :=
  filledFrom p.size 0 p.spans

/-- The span that holds an offset strictly inside: the last one that starts
before it, if that one is split there. -/
def spanAt? (p : Page) (offset : Nat) : Option Span :=
  (p.spans.takeWhile fun s => s.start < offset).getLast?.filter fun s => s.splits offset

/-- What an insertion at an offset would land in. -/
def kindAt (p : Page) (offset : Nat) : SpanKind :=
  ((p.spanAt? offset).map Span.kind).getD .plain

/-- **Whether an insertion at an offset leaves every span whole.** -/
def isSafe (p : Page) (offset : Nat) : Bool :=
  Text.isBoundary p.text offset && (p.spanAt? offset).isNone

/-- A span that holds an offset is split there. -/
theorem splits_of_spanAt? {p : Page} {offset : Nat} {s : Span} (h : p.spanAt? offset = some s) :
    s.splits offset = true := by
  simp only [spanAt?, Option.filter_eq_some_iff] at h
  exact h.2

/-- The nearest safe offset at or before an offset of the page. -/
def safeBefore? (p : Page) (offset : Nat) : Option Nat :=
  match _h : p.spanAt? offset with
  | some s => if Text.isBoundary p.text s.start then some s.start
              else if s.start = 0 then none else safeBefore? p (s.start - 1)
  | none => if Text.isBoundary p.text offset then some offset
            else if offset = 0 then none else safeBefore? p (offset - 1)
termination_by offset
decreasing_by
  · have := splits_of_spanAt? _h
    simp only [Span.splits, Bool.and_eq_true, decide_eq_true_eq] at this
    omega
  · omega

/-- **The nearest safe offset at or before an offset**; beyond the page, the
one nearest to its end. -/
def nearestSafeBefore? (p : Page) (offset : Nat) : Option Nat :=
  p.safeBefore? (min offset p.size)

/-- **The nearest safe offset at or after an offset.** -/
def nearestSafeAfter? (p : Page) (offset : Nat) : Option Nat :=
  if p.size < offset then none
  else
    match _h : p.spanAt? offset with
    | some s =>
      if !s.closed then none
      else if Text.isBoundary p.text s.stop then some s.stop
      else nearestSafeAfter? p (s.stop + 1)
    | none =>
      if Text.isBoundary p.text offset then some offset else nearestSafeAfter? p (offset + 1)
termination_by p.size + 1 - offset
decreasing_by
  · have := splits_of_spanAt? _h
    simp only [Span.splits, Bool.and_eq_true, Bool.or_eq_true, decide_eq_true_eq] at this
    simp_all
    omega
  · omega

/-- A tag of a page. -/
structure Tag where
  /-- Its name as written. -/
  name : List Char
  /-- Whether it is an end tag. -/
  closing : Bool
  /-- Its span. -/
  span : Span
  deriving Repr

/-- The name that a tag's text bears and whether it is an end tag; some tags
have no name. -/
def tagNameOf? : List Char → Option (List Char × Bool)
  | '<' :: '/' :: cs => if (tagName cs).isEmpty then none else some (tagName cs, true)
  | '<' :: cs => if (tagName cs).isEmpty then none else some (tagName cs, false)
  | _ => none

/-- The tag that a piece is. -/
def Piece.tag? (piece : Piece) : Option Tag :=
  if piece.span.kind = .tag then
    (tagNameOf? piece.text).map fun (name, closing) => ⟨name, closing, piece.span⟩
  else none

/-- **The tags of a name**, whatever its case. -/
def tags (p : Page) (name : String) : List Tag :=
  (p.pieces.filterMap Piece.tag?).filter fun t => Text.sameIgnoringCase t.name name.toList

/-- The spans of a kind. -/
def ofKind (p : Page) (kind : SpanKind) : List Span :=
  p.spans.filter fun s => s.kind = kind

end Page

end Trellis
