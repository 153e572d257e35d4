import Trellis.Graph.Basic
import Trellis.Hydration.Claim
import Trellis.Hydration.Payload
import Trellis.Page.Inject
/-!
# View — from a graph to a page

A page is made in four steps. The data sections of the graph's documents are
evaluated in order, each seeing what the ones before it left; the root's
template is shown with the data; each layout is shown around the result; and
the data placed under windows is put into the page for its scripts. Claims on
windows are entered as the data sections are met and stay entered when a later
step fails.
-/

namespace Trellis

namespace View

/-- How pages are made. -/
structure Maker where
  /-- How deep partials may lie. -/
  maxDepth : Nat := 64
  /-- How values are written into pages. -/
  escaping : Render.Escaping := .page
  /-- How markup is put into pages. -/
  injector : Page.Injector := {}

/-- How the trees of pages are rendered. -/
def Maker.manner (maker : Maker) : Render.Manner where
  maxDepth := maker.maxDepth
  escaping := maker.escaping

/-- The data gathered so far. -/
structure Gathered where
  /-- The server's layer. -/
  server : Json.Fields
  /-- The client's layer. -/
  client : Json.Fields
  /-- The windows that data was placed under, in order. -/
  placed : List String := []
  /-- The claims. -/
  claims : Hydration.Claims

/-- The layers of a request with the gathered data in place of its own. -/
def Gathered.layers (g : Gathered) (layers : Layers) : Layers :=
  { layers with server := g.server, client := g.client }

/-- The gathered data with a value placed under a window, merged with the one
that is there if a way of merging is given. -/
def Gathered.place (g : Gathered) (window : String) (value : Json.Value)
    (merge : Option Json.Merge) : Gathered :=
  let value :=
    match merge, g.client.get? window with
    | some merge, some existing => merge.apply existing value
    | _, _ => value
  { g with
    client := g.client.insert window value
    placed := if g.placed.contains window then g.placed else g.placed ++ [window] }

/-- The server's layer after merging fields into it: a field that is there is
merged with, any other is added. -/
def mergeServer (merge : Json.Merge) (server : Json.Fields) (fields : List (String × Json.Value)) :
    Json.Fields :=
  fields.foldl
    (fun server (key, value) =>
      match server.get? key with
      | some slot => server.insert key (merge.apply slot value)
      | none => server.insert key value)
    server

/-- The way of merging that a document declares. -/
def declaredMerge (name : String) (d : Document) : Except Failure (Option Json.Merge) :=
  match d.mergeWord? with
  | none => .ok none
  | some word =>
    match Json.Merge.ofName? word with
    | some merge => .ok (some merge)
    | none => .error (.invalid (.unknownMerge word name))

/-- **The value of a data section**: its text is shown as markup in the scope
of the data gathered so far, and the result is read as data. -/
def evaluate (maker : Maker) (layers : Layers) (name : String) (member : Member) (d : Document) :
    Except Failure Json.Value := do
  let nodes ←
    (Markup.parseAt d.data.raw d.data.contentPlace).mapError fun e =>
      (Failure.source (e.inSource member.source)).whileRendering
  let manner : Render.Manner := { maxDepth := maker.maxDepth, escaping := .string }
  let text ← Render.tree manner (fun _ => none) nodes (Scope.lookup { layers })
  (Json.decode text).mapError (.data name)

/-- What a step of gathering leaves behind: the claims, and the data or the
failure. -/
abbrev Step := Hydration.Claims × Except Failure Gathered

/-- The claim that a document makes on a window. -/
def claimOf (name window : String) (d : Document) (merge : Option Json.Merge) : Hydration.Claim :=
  ⟨window, ⟨name, d.data.location.line, d.data.location.column⟩, merge⟩

/-- **Gathers the data of one document.** -/
def gatherDocument (maker : Maker) (layers : Layers) (g : Gathered) (name : String)
    (member : Member) (d : Document) : Except Failure Gathered := do
  let merge ← declaredMerge name d
  if d.isSchema then
    match d.window? with
    | none => return g
    | some window =>
      let claims ← g.claims.register (claimOf name window d merge)
      let g := { g with claims }
      match (g.server.get? window).or (layers.request.get? window) with
      | some value => return g.place window value merge
      | none => return g
  else if Text.isBlankText d.data.raw.toList then return g
  else
    let value ← evaluate maker (g.layers layers) name member d
    match d.window?, value with
    | some window, value =>
      let claims ← g.claims.register (claimOf name window d merge)
      return { g with claims }.place window value merge
    | none, .object fields =>
      return { g with server := mergeServer (merge.getD .shallow) g.server fields }
    | none, _ => throw (.invalid (.unnamedDataNotMapping name))

/-- Gathers the data of members in their order. The claims stand also behind a
failure. -/
def gather (maker : Maker) (layers : Layers) (g : Gathered) : List (String × Member) → Step
  | [] => (g.claims, .ok g)
  | (name, member) :: rest =>
    match member.component.document? with
    | none => gather maker layers g rest
    | some d =>
      match gatherDocument maker layers g name member d with
      | .ok g => gather maker layers g rest
      | .error e => (g.claims, .error e)

/-- A finished page. -/
structure Rendered where
  /-- The text of the page. -/
  html : List Char
  /-- The client's layer with all gathered data. -/
  clientData : Json.Fields
  /-- Where markup for scripts was put in. -/
  place : Option Page.Place

/-- A tree shown inside layouts, the innermost first. -/
def withLayouts (maker : Maker) (graph : Graph) (layers : Layers) :
    List String → List Char → Render.Shown
  | [], html => .ok html
  | layout :: rest, html =>
    match graph.member? layout with
    | none => .error (.unresolvedLayout layout)
    | some member => do
      let content : Overlay := .bindings [("content", .string (String.ofList html))]
      let scope := content.inFrontOf (Scope.lookup { layers })
      let html ← Render.tree maker.manner graph.partials member.component.nodes scope
      withLayouts maker graph layers rest html

/-- The payload of the windows that data was placed under. -/
def payloadOf (client : Json.Fields) (placed : List String) : Hydration.Payload :=
  placed.foldl
    (fun payload window =>
      match client.get? window with
      | some value => payload.insert window value
      | none => payload)
    []

/-- The page with a payload put in. An empty payload puts nothing in. -/
def hydrate (maker : Maker) (root : String) (nonce : Option String) (payload : Hydration.Payload)
    (html : List Char) : Page.Injector.Outcome :=
  if payload.isEmpty then ⟨html, none⟩
  else maker.injector.inject html (payload.markup nonce) (some root)

/-- The page of a graph whose data is gathered. -/
def finish (maker : Maker) (graph : Graph) (layers : Layers) (nonce : Option String)
    (g : Gathered) : Except Failure Rendered := do
  let layers := g.layers layers
  match graph.member? graph.root with
  | none => throw (.unresolvedRoot graph.root)
  | some root =>
    let scope := Scope.lookup { layers }
    let html ← Render.tree maker.manner graph.partials root.component.nodes scope
    let html ← withLayouts maker graph layers graph.layoutChain html
    let outcome := hydrate maker graph.root nonce (payloadOf g.client g.placed) html
    return { html := outcome.html, clientData := g.client, place := outcome.place }

/-- **Makes a page of a graph.** The claims come back also with a failure. -/
def render (maker : Maker) (graph : Graph) (layers : Layers) (claims : Hydration.Claims)
    (nonce : Option String) : Hydration.Claims × Except Failure Rendered :=
  let start : Gathered := { server := layers.server, client := layers.client, claims }
  match gather maker layers start graph.members with
  | (claims, .error e) => (claims, .error e)
  | (claims, .ok g) => (claims, finish maker graph layers nonce g)

end View

end Trellis
