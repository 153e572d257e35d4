import Trellis.Document.Basic
import Trellis.Library
import Trellis.Render
/-!
# Graph — a source and all it depends on

A source refers to the partials that its markup mentions and to its layout.
Resolving a root loads everything reachable from it, each name once, and lists
a member only when all that it refers to is listed: the members stand in the
order in which their data is gathered. A name that is met again while it is
still being resolved closes a circle and is refused with the way round it.
-/

namespace Trellis

/-- What a loaded source turned out to be. -/
inductive Component where
  | document (d : Document)
  | fragment (nodes : List Markup.Node)
  deriving Repr

namespace Component

/-- The tree that a component shows. -/
def nodes : Component → List Markup.Node
  | document d => d.template.content
  | fragment nodes => nodes

/-- The document, if the component is one. -/
def document? : Component → Option Document
  | document d => some d
  | fragment _ => none

/-- The layout that a component is shown inside of. -/
def layout? (c : Component) : Option String :=
  c.document?.bind Document.layout?

/-- The component of a source. -/
def ofSource (source : String) : Except SourceError Component :=
  if Document.isDocumentSource source then (Document.parse source).map .document
  else (Markup.parse source).map .fragment

/-- The markup of a component, given its source: its template, or all of it. -/
def markup (source : String) : Component → String
  | document d => d.template.raw
  | fragment _ => source

end Component

/-- A loaded source with what it refers to. -/
structure Member where
  /-- What the source turned out to be. -/
  component : Component
  /-- The source. -/
  source : String
  /-- The partials that it mentions, each once and in order, and behind them
  its layout if that is not one of them. -/
  references : List String
  deriving Repr

namespace Member

/-- The member of a source. -/
def ofSource (source : String) : Except SourceError Member := do
  let component ← Component.ofSource source
  let partials ← Markup.mentionedPartials (component.markup source)
  let references :=
    match component.layout? with
    | some layout => if partials.contains layout then partials else partials ++ [layout]
    | none => partials
  return { component, source, references }

/-- The member under a name of a library. -/
def load (library : Library) (name : String) : Except Failure Member :=
  match library.fetch name with
  | .error e => .error (.templateNotFound name (some e.message))
  | .ok none => .error (.templateNotFound name none)
  | .ok (some source) => (ofSource source).mapError .source

end Member

/-- A root and everything that it depends on. -/
structure Graph where
  /-- The name that was asked for. -/
  root : String
  /-- The members by name, each behind all that it refers to. -/
  members : List (String × Member)
  deriving Repr

namespace Graph

/-- Adds a name and all that it refers to to the members listed so far. The
trail holds the names being resolved, the outermost first. -/
def extend (library : Library) :
    Nat → List String → List (String × Member) → String → Except Failure (List (String × Member))
  | 0, trail, _, name => .error (.circular (trail ++ [name]))
  | steps + 1, trail, members, name =>
    if trail.contains name then .error (.circular (trail ++ [name]))
    else if members.any (·.1 == name) then .ok members
    else do
      let member ← Member.load library name
      let members ← member.references.foldlM (extend library steps (trail ++ [name])) members
      return members ++ [(name, member)]

/-- **The graph of a root.** -/
def resolve (library : Library) (root : String) : Except Failure Graph := do
  let members ← extend library (library.breadth + 1) [] [] root
  return { root, members }

/-- The member of a name. -/
def member? (g : Graph) (name : String) : Option Member :=
  Keyed.get? g.members name

/-- The names in the order in which their data is gathered. -/
def order (g : Graph) : List String :=
  g.members.map Prod.fst

/-- The layout of a name. -/
def layoutOf? (g : Graph) (name : String) : Option String :=
  (g.member? name).bind fun m => m.component.layout?

/-- The layouts from a name on that were not met before, at most so many. -/
def layoutsFrom (g : Graph) : Nat → List String → Option String → List String
  | 0, chain, _ => chain
  | _, chain, none => chain
  | steps + 1, chain, some name =>
    if chain.contains name then chain
    else layoutsFrom g steps (chain ++ [name]) (g.layoutOf? name)

/-- The root's layout, the layout of that one, and so on. -/
def layoutChain (g : Graph) : List String :=
  layoutsFrom g (g.members.length + 1) [] (g.layoutOf? g.root)

/-- **The members as partials**, already read. -/
def partials (g : Graph) : Render.Partials := fun name =>
  (g.member? name).map fun m => .tree m.component.nodes

end Graph

end Trellis
