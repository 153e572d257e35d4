import Trellis.Graph.Fingerprint
import Trellis.Recent
import Trellis.Settings
/-!
# Site — rendering with a memory

A site makes pages of the documents of a library under its settings, and
remembers the graphs it resolved. A graph that is remembered is not resolved
again, whatever became of its sources, until it is forgotten. A graph that
cannot be resolved leaves the memory as it was.
-/

namespace Trellis

/-- A site: its settings and the graphs it remembers. -/
structure Site where
  /-- The settings. -/
  settings : Settings
  /-- How pages are made under them. -/
  maker : View.Maker
  /-- The graphs remembered by root, if any are to be. -/
  memory : Option (Recent Graph)

namespace Site

/-- A site that remembers so many graphs; with zero, none. -/
def make (settings : Settings) (remembered : Nat) : Except Failure Site := do
  let maker ← settings.maker
  return { settings, maker, memory := if remembered = 0 then none else some (.empty remembered) }

/-- A site with the default settings that remembers so many graphs, one at
least. -/
def makeRemembering (remembered : Nat) : Except Failure Site :=
  make {} (max remembered 1)

/-- Whether the graph of a root is remembered. -/
def remembers (site : Site) (root : String) : Bool :=
  site.memory.any fun memory => memory.contains root

/-- The graph of a root resolved anew and remembered. -/
def resolveAnew (site : Site) (library : Library) (root : String) : Except Failure Graph × Site :=
  match Graph.resolve library root with
  | .error e => (.error e, site)
  | .ok graph =>
    (.ok graph, { site with memory := site.memory.map fun memory => memory.store root graph })

/-- **The graph of a root**, from memory if it is remembered. -/
def compose (site : Site) (library : Library) (root : String) : Except Failure Graph × Site :=
  match site.memory.map fun memory => memory.fetch root with
  | some (some graph, memory) => (.ok graph, { site with memory := some memory })
  | _ => site.resolveAnew library root

/-- Forgets the graph of a root. -/
def forget (site : Site) (root : String) : Site :=
  { site with memory := site.memory.map fun memory => memory.remove root }

/-- Forgets all graphs. -/
def forgetAll (site : Site) : Site :=
  { site with memory := site.memory.map Recent.clear }

/-- What a render leaves behind: the page or the failure, the claims, and the
site. -/
structure Outcome where
  /-- The page, or why there is none. -/
  page : Except Failure View.Rendered
  /-- The claims. -/
  claims : Hydration.Claims
  /-- The site with what it remembers now. -/
  site : Site

/-- **Makes the page of a root** for one request, entering claims. -/
def render (site : Site) (library : Library) (root : String) (layers : Layers)
    (claims : Hydration.Claims) (nonce : Option String) : Outcome :=
  match site.compose library root with
  | (.error e, site) => ⟨.error e, claims, site⟩
  | (.ok graph, site) =>
    let (claims, page) := View.render site.maker graph layers claims nonce
    ⟨page, claims, site⟩

/-- Makes the page of a root on its own, with the given nonce if pages are to
get one. -/
def renderPage (site : Site) (library : Library) (root : String) (layers : Layers)
    (nonce : String) : Outcome :=
  site.render library root layers [] (if site.settings.hydration.nonce then some nonce else none)

/-- The sources of a library as partials; one that fails is as one that is not
there. -/
def partialsOf (library : Library) : Render.Partials := fun name =>
  match library.fetch name with
  | .ok (some text) => some (.source text)
  | _ => none

/-- **What a source shows**, its partials read from a library. Data sections and
layouts have no part in it. -/
def renderSource (site : Site) (library : Library) (source : String) (layers : Layers) :
    Render.Shown :=
  Render.source site.maker.manner (partialsOf library) source (Scope.lookup { layers })

end Site

/-- **Whether two graphs are of the same root and sources.** A member is settled
by its name and its source, so such graphs are the same. -/
def Graph.sameSources (g h : Graph) : Bool :=
  let listed (g : Graph) : List (String × String) := g.members.map fun (name, m) => (name, m.source)
  g.root == h.root && listed g == listed h

end Trellis
