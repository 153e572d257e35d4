import Trellis.Scope.Basic
/-!
# Scope — one answerer in front of another

Whatever answers paths can stand behind an overlay. The overlay takes a path as it is
written, cuts the blanks off, and either answers it or hands it on to what stands
behind, which does the same. A stack of overlays in front of the layers of data is a
scope; anything else may stand there as well, and a tree is shown in front of it.
-/

namespace Trellis

/-- What answers paths as they are written. -/
abbrev Lookup := String → Option Json.Value

/-- A scope answers paths. -/
instance : Coe Scope Lookup where
  coe := Scope.lookup

namespace Path

/-- The text of a path up to its first point, and the text behind that point. -/
def halves (text : List Char) : List Char × Option (List Char) :=
  match Text.cut? ['.'] text with
  | some (first, rest) => (first, some rest)
  | none => (text, none)

/-- The value that a text leads to from the fields of an object. -/
def resolveText? (fields : Json.Fields) (text : List Char) : Option Json.Value :=
  match halves text with
  | (first, none) => fields.get? (String.ofList first)
  | (first, some rest) => (fields.get? (String.ofList first)).bind (resolve? · (segments rest))

end Path

namespace Overlay

/-- **An overlay in front of what answers the paths that it does not.** -/
def inFrontOf (behind : Lookup) (overlay : Overlay) : Lookup := fun path =>
  let text := Text.trimmed path
  let first := String.ofList (Path.halves text.toList).1
  match overlay with
  | .bindings values =>
    if values.contains first then Path.resolveText? values text.toList else behind text
  | .loop item index length key =>
    if text = "this" ∨ text = "." then some item
    else if text = "@index" then some (.number (.int index))
    else if text = "@first" then some (.bool (index == 0))
    else if text = "@last" then some (.bool (index + 1 == length))
    else if text = "@key" then
      match key with
      | some key => some (.string key)
      | none => behind text
    else
      match Text.behind? "this.".toList text.toList, item with
      | some rest, item => Path.resolve? item (Path.segments rest)
      | none, .object fields =>
        if Keyed.contains fields first then Path.resolveText? fields text.toList else behind text
      | none, _ => behind text

/-- Overlays in front of what answers the paths that none of them does, the innermost
first. -/
def stack (base : Lookup) (overlays : List Overlay) : Lookup :=
  overlays.foldr (fun overlay behind => overlay.inFrontOf behind) base

end Overlay

end Trellis
