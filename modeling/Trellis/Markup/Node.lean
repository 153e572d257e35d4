import Trellis.Markup.Token
/-!
# Markup — the tree

What a text of markup means: literal text, values, partials, and blocks with
nodes of their own. `Node.flat` lists a tree in the order of its openers, the
order in which names are collected.
-/

namespace Trellis

namespace Markup

/-- A node of a markup tree with the range of the source it stands for. -/
inductive Node where
  | text (content : String) (location : Location)
  | placeholder (name : String) (raw : Bool) (location : Location)
  | inclusion (name : String) (location : Location)
  | conditional (condition : String) (body alternative : List Node) (location : Location)
  | negated (condition : String) (body : List Node) (location : Location)
  | loop (collection : String) (body : List Node) (location : Location)
  deriving Repr

instance : Inhabited Node := ⟨.text "" .start⟩

namespace Node

/-- The range of the source that a node stands for. -/
def location : Node → Location
  | text _ l | placeholder _ _ l | inclusion _ l => l
  | conditional _ _ _ l | negated _ _ l | loop _ _ l => l

/-- The kind of a block. -/
def blockKind? : Node → Option BlockKind
  | conditional .. => some .conditional
  | negated .. => some .negated
  | loop .. => some .loop
  | _ => none

/-- The nodes directly below a node, in the order of the source. -/
def children : Node → List Node
  | conditional _ body alternative _ => body ++ alternative
  | negated _ body _ => body
  | loop _ body _ => body
  | _ => []

mutual

/-- A node and everything below it, each node before what is below it. -/
def flat : Node → List Node
  | conditional c body alternative l =>
    conditional c body alternative l :: (flatAll body ++ flatAll alternative)
  | negated c body l => negated c body l :: flatAll body
  | loop c body l => loop c body l :: flatAll body
  | node => [node]

/-- The nodes of a list and everything below them. -/
def flatAll : List Node → List Node
  | [] => []
  | node :: nodes => node.flat ++ flatAll nodes

end

/-- The names of the values that a tree shows, each once, in the order of
their first mention. -/
def placeholderNames (nodes : List Node) : List String :=
  Text.distinct ((flatAll nodes).filterMap fun node =>
    match node with
    | placeholder name _ _ => some name
    | _ => none)

/-- The names of the partials that a tree includes, each once, in the order of
their first mention. -/
def inclusionNames (nodes : List Node) : List String :=
  Text.distinct ((flatAll nodes).filterMap fun node =>
    match node with
    | inclusion name _ => some name
    | _ => none)

/-- The blocks of a tree, in the order of their openers. -/
def blocks (nodes : List Node) : List Node :=
  (flatAll nodes).filter fun node => node.blockKind?.isSome

end Node

end Markup

end Trellis
