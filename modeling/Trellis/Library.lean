import Trellis.Error
import Trellis.Keyed
/-!
# Library — where sources come from

A library hands out the source under a name, says that there is none, or fails.
It also bounds how many different names can lie on one path of references, so
that whoever follows references through it comes to an end.
-/

namespace Trellis

/-- Sources by name. -/
structure Library where
  /-- The source under a name, nothing, or a failure. -/
  fetch : String → Except Failure (Option String)
  /-- Along references from source to source there are at most so many
  different names whose source is there. -/
  breadth : Nat

/-- A collection of documents held in memory. Some names may fail, whatever
documents there are. -/
structure Collection where
  /-- The documents by name. -/
  documents : Keyed String := []
  /-- Names that fail, and what they fail with. -/
  failing : Keyed String := []
  deriving Inhabited

namespace Collection

/-- What a collection answers under a name. -/
def fetch (c : Collection) (name : String) : Except Failure (Option String) :=
  match c.failing.get? name with
  | some text => .error (.invalid (.described text))
  | none => .ok (c.documents.get? name)

/-- **A collection as a library.** -/
def library (c : Collection) : Library :=
  { fetch := c.fetch, breadth := c.documents.length }

end Collection

end Trellis
