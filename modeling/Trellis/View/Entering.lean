import Trellis.Hydration.Registry
import Trellis.View
/-!
# View — entering claims in a registry

The registry of a request belongs to whoever asks for the page. Making a page changes
it step by step, and what was changed stays so behind a failure. Here the steps of
gathering are told with all that they change, each at its turn.
-/

namespace Trellis

namespace View

/-- What gathering works on. -/
structure Workspace where
  /-- The server's layer. -/
  server : Json.Fields
  /-- The client's layer. -/
  client : Json.Fields
  /-- The windows that data was placed under, in order. -/
  placed : List String := []
  /-- The registry. -/
  registry : Hydration.Registry

/-- The data gathered so far. -/
def Workspace.gathered (w : Workspace) : Gathered where
  server := w.server
  client := w.client
  placed := w.placed
  claims := w.registry.claims

/-- Where gathering begins with a registry. -/
def Workspace.start (layers : Layers) (registry : Hydration.Registry) : Workspace where
  server := layers.server
  client := layers.client
  registry := registry

/-- A computation that changes a workspace and may fail. What it changed before it
failed stays changed. -/
abbrev Work := ExceptT Failure (StateM Workspace)

namespace Work

/-- What a computation answers, and the workspace behind it. -/
def on {α : Type} (x : Work α) (w : Workspace) : Except Failure α × Workspace :=
  Id.run (StateT.run (ExceptT.run x) w)

/-- Enters a claim in the registry. -/
def enter (claim : Hydration.Claim) : Work Unit := do
  let w ← get
  let (answer, registry) := w.registry.register claim
  set { w with registry }
  answer

/-- Places a value under a window. -/
def place (window : String) (value : Json.Value) (merge : Option Json.Merge) : Work Unit :=
  modify fun w =>
    let g := w.gathered.place window value merge
    { w with client := g.client, placed := g.placed }

/-- Merges fields into the server's layer. -/
def keep (merge : Json.Merge) (fields : List (String × Json.Value)) : Work Unit :=
  modify fun w => { w with server := mergeServer merge w.server fields }

end Work

/-- **Gathers the data of one document** into a workspace. -/
def aggregate (maker : Maker) (layers : Layers) (name : String) (member : Member)
    (d : Document) : Work Unit := do
  let merge ← declaredMerge name d
  if d.isSchema then
    match d.window? with
    | none => return
    | some window =>
      Work.enter (claimOf name window d merge)
      let w ← get
      match (w.server.get? window).or (layers.request.get? window) with
      | some value => Work.place window value merge
      | none => return
  else if Text.isBlankText d.data.raw.toList then return
  else
    let w ← get
    let value ← evaluate maker (w.gathered.layers layers) name member d
    match d.window?, value with
    | some window, value =>
      Work.enter (claimOf name window d merge)
      Work.place window value merge
    | none, .object fields => Work.keep (merge.getD .shallow) fields
    | none, _ => throw (.invalid (.unnamedDataNotMapping name))

/-- Gathers the data of members in their order. -/
def aggregateAll (maker : Maker) (layers : Layers) : List (String × Member) → Work Unit
  | [] => return
  | (name, member) :: rest =>
    match member.component.document? with
    | none => aggregateAll maker layers rest
    | some d => do
      aggregate maker layers name member d
      aggregateAll maker layers rest

/-- **Makes a page of a graph**, entering claims in a registry. -/
def renderInto (maker : Maker) (graph : Graph) (layers : Layers)
    (registry : Hydration.Registry) (nonce : Option String) :
    Except Failure Rendered × Hydration.Registry :=
  match (aggregateAll maker layers graph.members).on (.start layers registry) with
  | (.error e, w) => (.error e, w.registry)
  | (.ok (), w) => (finish maker graph layers nonce w.gathered, w.registry)

end View

end Trellis
