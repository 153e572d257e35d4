import Trellis.Scope.Layers
/-!
# Scope — what names mean at a place

A scope is the layers of data with overlays on top: one for every loop around
the place, and bindings of single names. The innermost overlay that owns a path
answers it, even with nothing; what no overlay owns is read in the layers.
-/

namespace Trellis

/-- One overlay of a scope. -/
inductive Overlay where
  | loop (item : Json.Value) (index length : Nat) (key : Option String)
  | bindings (values : Json.Fields)

namespace Overlay

/-- The value that a path leads to in an overlay that owns it; nothing if the
overlay does not own the path. -/
def answer? (path : Path) : Overlay → Option (Option Json.Value)
  | loop item index length key =>
    match path, key with
    | ["this"], _ => some (some item)
    | ["", ""], _ => some (some item)
    | ["@index"], _ => some (some (.number (.int index)))
    | ["@first"], _ => some (some (.bool (index == 0)))
    | ["@last"], _ => some (some (.bool (index + 1 == length)))
    | ["@key"], some key => some (some (.string key))
    | ["@key"], none => none
    | "this" :: rest, _ => some (Path.resolve? item rest)
    | first :: _, _ =>
      match item with
      | .object fields =>
        if Keyed.contains fields first then some (Path.resolveIn? fields path) else none
      | _ => none
    | [], _ => none
  | bindings values =>
    match path with
    | first :: _ => if values.contains first then some (Path.resolveIn? values path) else none
    | [] => none

end Overlay

/-- What names mean at a place. -/
structure Scope where
  /-- The overlays, the innermost first. -/
  overlays : List Overlay := []
  /-- The layers below them. -/
  layers : Layers

namespace Scope

/-- The answer of the first overlay that owns a path, or the one of what lies
below all of them. -/
def lookupAbove (base : Path → Option Json.Value) (path : Path) :
    List Overlay → Option Json.Value
  | [] => base path
  | overlay :: rest => (overlay.answer? path).getD (lookupAbove base path rest)

/-- **The value that a path leads to.** -/
def lookup (scope : Scope) (path : String) : Option Json.Value :=
  lookupAbove scope.layers.lookup (Path.ofText path) scope.overlays

/-- The item of the innermost loop and its position. -/
def currentItem? (scope : Scope) : Option (Json.Value × Nat) :=
  scope.overlays.findSome? fun overlay =>
    match overlay with
    | .loop item index _ _ => some (item, index)
    | .bindings _ => none

end Scope

end Trellis
