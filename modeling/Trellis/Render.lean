import Trellis.Document.Basic
import Trellis.Escape
import Trellis.Scope.Stack
/-!
# Render — showing a tree in a scope

A tree is shown node by node: text as it is, values escaped, blocks once, never
or once per item. The scope may be anything that answers paths; a loop puts one
overlay in front of it for each item. What a partial shows is left to a function,
so that the walk recurses on the tree alone; `showWithin` ties the knot by counting
down the nesting that is still allowed. Partials see the scope of the place that
includes them.
-/

namespace Trellis

namespace Render

/-- How values are written that are not raw. -/
inductive Escaping where
  | page
  | string
  deriving DecidableEq, Repr

/-- The text of a value under an escaping. -/
def Escaping.apply : Escaping → List Char → List Char
  | .page => Escape.page
  | .string => Escape.string

/-- Text, or why there is none. -/
abbrev Shown := Except Failure (List Char)

/-- The texts of a list of steps, one behind the other; the first failure
counts. -/
def inOrder (show? : α → Shown) : List α → Shown
  | [] => .ok []
  | a :: rest => do
    let first ← show? a
    let more ← inOrder show? rest
    return first ++ more

/-- The loop overlays of a collection: one per item of a list, one per field of
an object, none for anything else. -/
def iterations : Json.Value → List Overlay
  | .array items =>
    items.zipIdx.map fun (item, index) => .loop item index items.length none
  | .object fields =>
    fields.zipIdx.map fun ((key, item), index) => .loop item index fields.length (some key)
  | _ => []

/-- Whether a path leads to a value that holds. -/
def holds (scope : Lookup) (path : String) : Bool :=
  (scope path).any Json.Value.holds

/-- What a value shows at a place. -/
def placeholder (escaping : Escaping) (scope : Lookup) (name : String) (raw : Bool) : List Char :=
  match scope name with
  | none => []
  | some value => if raw then value.shown else escaping.apply value.shown

/-- What a partial shows at a place. -/
abbrev Inclusion := String → Location → Lookup → Shown

mutual

/-- **What a node shows.** -/
def node (escaping : Escaping) (embed : Inclusion) : Markup.Node → Lookup → Shown
  | .text content _, _ => .ok content.toList
  | .placeholder name raw _, scope => .ok (placeholder escaping scope name raw)
  | .inclusion name location, scope => embed name location scope
  | .conditional condition body alternative _, scope =>
    if holds scope condition then nodes escaping embed body scope
    else nodes escaping embed alternative scope
  | .negated condition body _, scope =>
    if holds scope condition then .ok [] else nodes escaping embed body scope
  | .loop collection body _, scope =>
    match scope collection with
    | none => .ok []
    | some value =>
      inOrder (fun overlay => nodes escaping embed body (overlay.inFrontOf scope))
        (iterations value)

/-- What a list of nodes shows. -/
def nodes (escaping : Escaping) (embed : Inclusion) : List Markup.Node → Lookup → Shown
  | [], _ => .ok []
  | n :: rest, scope => do
    let first ← node escaping embed n scope
    let more ← nodes escaping embed rest scope
    return first ++ more

end

/-- What stands behind a partial's name: a tree, or a source still to be
read. -/
inductive Served where
  | tree (nodes : List Markup.Node)
  | source (text : String)

/-- The tree of what stands behind a name. -/
def Served.tree? : Served → Except Failure (List Markup.Node)
  | .tree nodes => .ok nodes
  | .source text => (shownTree text).mapError .source

/-- Which partials there are. -/
abbrev Partials := String → Option Served

/-- How to render. -/
structure Manner where
  /-- How many partials may lie inside one another. -/
  maxDepth : Nat := 64
  /-- How values are written. -/
  escaping : Escaping := .page

/-- What a tree shows when so many partials may still lie inside one another.
A partial that may not is a failure, before it is looked for. -/
def showWithin (manner : Manner) (partials : Partials) : Nat → List Markup.Node → Lookup → Shown
  | 0 => nodes manner.escaping fun name location _ =>
      .error (.nestedTooDeep name location manner.maxDepth)
  | depth + 1 => nodes manner.escaping fun name location scope =>
      match partials name with
      | none => .error (.partialNotFound name location)
      | some served => do
        let tree ← served.tree?
        showWithin manner partials depth tree scope

/-- **What a tree shows.** -/
def tree (manner : Manner) (partials : Partials) (nodes : List Markup.Node) (scope : Lookup) :
    Shown :=
  (showWithin manner partials manner.maxDepth nodes scope).mapError Failure.whileRendering

/-- **What a source shows**: the template of a document, or markup. -/
def source (manner : Manner) (partials : Partials) (text : String) (scope : Lookup) : Shown := do
  let nodes ← (shownTree text).mapError fun e => (Failure.source e).whileRendering
  tree manner partials nodes scope

end Render

end Trellis
