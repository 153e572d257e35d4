import Trellis.Error
import Trellis.Json.Merge
import Trellis.Text.Blank
/-!
# Hydration — claims on windows

Data for the page's scripts goes under window names. Each section that puts
data there claims its name; a name that is claimed already may be claimed
again only by a section that says how to merge. A claim that is refused leaves
the book of claims as it was.
-/

namespace Trellis

namespace Hydration

/-- A section's claim on a window. -/
structure Claim where
  /-- The name of the window. -/
  window : String
  /-- The place of the section. -/
  origin : Origin
  /-- How its data is merged with what is there. -/
  merge : Option Json.Merge
  deriving DecidableEq, Repr

/-- The claims accepted so far, in their order. -/
abbrev Claims := List Claim

/-- Whether a place is one: a named document, a line and a column. -/
def isPresent (origin : Origin) : Bool :=
  !Text.isBlankText origin.document.toList && 0 < origin.line && 0 < origin.column

namespace Claims

/-- The first claim on a window. -/
def first? (claims : Claims) (window : String) : Option Claim :=
  claims.find? fun c => c.window == window

/-- Whether a window is claimed. -/
def isClaimed (claims : Claims) (window : String) : Bool :=
  (first? claims window).isSome

/-- **The claims with one more**, or why it is refused. -/
def register (claims : Claims) (claim : Claim) : Except Failure Claims :=
  if Text.isBlankText claim.window.toList then .error (.invalid .blankWindow)
  else if !isPresent claim.origin then .error (.invalid (.noSourceLocation claim.window))
  else
    match first? claims claim.window, claim.merge with
    | some first, none => .error (.collision claim.window first.origin claim.origin)
    | _, _ => .ok (claims ++ [claim])

/-- The windows claimed, each once, in the order of their first claims. -/
def windows (claims : Claims) : List String :=
  Text.distinct (claims.map Claim.window)

end Claims

end Hydration

end Trellis
