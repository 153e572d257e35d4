import Trellis.Glob.Reach
import Trellis.Page.Mount
/-!
# Page — where markup is put in

An injector puts markup into a page at one safe offset and leaves every other
byte as it is. Its strategy prefers the head, the mount element or the end of
the body; where that gives no place it may fall back to the end, and documents
that a pattern excludes always get their markup late. Without a place the page
stays as it is.
-/

namespace Trellis

namespace Page

/-- Where markup should go. -/
inductive Strategy where
  | early
  | late
  | mount
  deriving DecidableEq, Repr, Inhabited

namespace Strategy

/-- The word for a strategy. -/
def name : Strategy → String
  | early => "early"
  | late => "late"
  | mount => "mount"

/-- The strategy of a word as it is. -/
def ofWord? (word : String) : Option Strategy :=
  [early, late, mount].find? fun s => s.name == word

/-- The strategy of a word, whatever its case and the blanks around it. -/
def ofName (word : String) : Except Failure Strategy :=
  let word := Text.lowered (Text.trimmed word)
  match ofWord? word with
  | some strategy => .ok strategy
  | none => .error (.setting (.unknownStrategy word))

end Strategy

/-- The rule that chose a place. -/
inductive Rule where
  | early
  | mount
  | late
  deriving DecidableEq, Repr

/-- The word for a rule. -/
def Rule.name : Rule → String
  | .early => "early"
  | .mount => "mount"
  | .late => "late"

/-- A place for markup. -/
structure Place where
  /-- Offset in the page. -/
  offset : Nat
  /-- The rule that chose it. -/
  rule : Rule
  deriving DecidableEq, Repr

/-- **A text with markup put in at an offset.** -/
def splice (text : List Char) (offset : Nat) (markup : List Char) : List Char :=
  match Text.cleave? offset text with
  | some (before, rest) => before ++ markup ++ rest
  | none => text

/-- The first tag of a name that is an end tag or not, from an offset on. -/
def firstTag? (p : Page) (name : String) (closing : Bool) (start : Nat) : Option Tag :=
  (p.tags name).find? fun t => t.closing = closing && start ≤ t.span.start

/-- A stretch of offsets, both ends included. -/
structure Region where
  /-- The first offset. -/
  first : Nat
  /-- The last offset. -/
  last : Nat

/-- Whether an offset lies in a region. -/
def Region.holds (r : Region) (offset : Nat) : Bool :=
  r.first ≤ offset && offset ≤ r.last

/-- The region behind the head's tag: up to the head's end tag, or the body's
tag, or the end of the page. -/
def headRegion (p : Page) (head : Tag) : Region :=
  let first := head.span.stop
  let last :=
    match p.firstTag? "head" true first with
    | some close => close.span.start
    | none => ((p.firstTag? "body" false first).map fun t => t.span.start).getD p.size
  ⟨first, last⟩

/-- The end of the last tag of a name that starts in a region. -/
def lastTagEnd? (p : Page) (name : String) (r : Region) : Option Nat :=
  let inside := (p.tags name).filter fun t => !t.closing && r.holds t.span.start
  inside.getLast?.map fun t => t.span.stop

/-- The end of the first whole script that starts in a region. -/
def firstScriptEnd? (p : Page) (r : Region) : Option Nat :=
  ((p.ofKind .script).find? fun s => s.closed && r.holds s.start).map Span.stop

/-- The offset itself if it is safe, or else the nearest safe one in a region,
rather before it than after it. -/
def settled? (p : Page) (r : Region) (offset : Nat) : Option Nat :=
  if p.isSafe offset then some offset
  else
    ((p.nearestSafeBefore? offset).filter r.holds).or ((p.nearestSafeAfter? offset).filter r.holds)

/-- **The earliest place**: in the head behind the last link, else behind the
last meta tag, else behind the first script, else at the head's end; in a page
without a head, right before the body. -/
def earliest? (p : Page) : Option Nat :=
  match p.firstTag? "head" false 0 with
  | none => ((p.firstTag? "body" false 0).map fun t => t.span.start).filter p.isSafe
  | some head =>
    let r := p.headRegion head
    let close := (p.firstTag? "head" true r.first).map fun t => t.span.start
    [p.lastTagEnd? "link" r, p.lastTagEnd? "meta" r, p.firstScriptEnd? r, close].findSome?
      fun candidate => candidate.bind (p.settled? r)

/-- The start of the last end tag of a name that starts at a safe offset. -/
def lastClosing? (p : Page) (name : String) : Option Nat :=
  ((p.tags name).reverse.find? fun t => t.closing && p.isSafe t.span.start).map
    fun t => t.span.start

/-- **The late place**: before the end of the body, else before the end of the
page's element, else at the end of the page. -/
def late? (p : Page) : Option Nat :=
  (p.lastClosing? "body").or
    ((p.lastClosing? "html").or (if p.isSafe p.size then some p.size else none))

/-- How markup is put into pages. -/
structure Injector where
  /-- Where markup should go. -/
  strategy : Strategy := .early
  /-- The id of the mount element. -/
  mountId : String := "app"
  /-- Whether markup without its preferred place goes late. -/
  fallback : Bool := true
  /-- Patterns of documents whose markup always goes late. -/
  excluded : List (List Glob.Part) := []

namespace Injector

/-- Whether a document's markup always goes late. -/
def excludes (i : Injector) (document : String) : Bool :=
  i.excluded.any fun parts => Glob.accepts parts document

/-- The late place of a page with its rule. -/
def latePlace? (p : Page) : Option Place :=
  p.late?.map fun offset => ⟨offset, .late⟩

/-- The place that the strategy prefers. -/
def preferred? (i : Injector) (p : Page) : Option Place :=
  match i.strategy with
  | .early => p.earliest?.map fun offset => ⟨offset, .early⟩
  | .mount => ((p.mountPoint? i.mountId).filter MountPoint.safe).map fun m => ⟨m.offset, .mount⟩
  | .late => latePlace? p

/-- **The place for markup in a page.** -/
def place? (i : Injector) (p : Page) (excluded : Bool) : Option Place :=
  (if excluded then none else i.preferred? p).or
    (if excluded || i.fallback || i.strategy = .late then latePlace? p else none)

/-- A page with markup put in, and the place where that happened. -/
structure Outcome where
  /-- The page's text. -/
  html : List Char
  /-- The place, if there was one. -/
  place : Option Place

/-- **Puts markup into a page** of a document. -/
def inject (i : Injector) (html markup : List Char) (document : Option String) : Outcome :=
  let place := i.place? (scan html) (document.any i.excludes)
  match place with
  | some chosen => ⟨splice html chosen.offset markup, place⟩
  | none => ⟨html, none⟩

end Injector

end Page

end Trellis
