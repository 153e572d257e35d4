import Trellis.Error
import Trellis.Scope.Path
/-!
# Scope — the layers of data

The data of one request lies in three layers. A path is read in the first layer,
client before server before request, that knows its first segment; if that
leads nowhere the first segment may name a layer itself.
-/

namespace Trellis

/-- One of the layers of data. -/
inductive Layer where
  | request
  | server
  | client
  deriving DecidableEq, Repr

namespace Layer

/-- The name by which paths mention a layer. -/
def name : Layer → String
  | request => "request"
  | server => "server"
  | client => "client"

/-- The layer of a name. -/
def ofName? (name : String) : Option Layer :=
  [request, server, client].find? fun layer => layer.name == name

/-- The order in which layers are asked for a name. -/
def lookupOrder : List Layer :=
  [client, server, request]

end Layer

/-- The data of one request. -/
structure Layers where
  /-- What the request brought along. -/
  request : Json.Fields := []
  /-- What only the server sees. -/
  server : Json.Fields := []
  /-- What the page's scripts see as well. -/
  client : Json.Fields := []
  deriving Inhabited

namespace Layers

/-- The fields of one layer. -/
def get (layers : Layers) : Layer → Json.Fields
  | .request => layers.request
  | .server => layers.server
  | .client => layers.client

/-- The fields that a value gives to a layer: none for an absent value or
null. -/
def fieldsOf (layer : Layer) : Option Json.Value → Except Failure Json.Fields
  | none => .ok []
  | some .null => .ok []
  | some (.object fields) => .ok fields
  | some other => .error (.invalid (.layerNotMapping layer.name other.kindName))

/-- Layers from values, of which each is absent, null or an object. -/
def ofValues? (request server client : Option Json.Value) : Except Failure Layers := do
  let request ← fieldsOf .request request
  let server ← fieldsOf .server server
  let client ← fieldsOf .client client
  return { request, server, client }

/-- The value that a path leads to in one layer. -/
def lookupIn (layers : Layers) (layer : Layer) (path : Path) : Option Json.Value :=
  Path.resolveIn? (layers.get layer) path

/-- The first layer that knows a name. -/
def owner? (layers : Layers) (name : String) : Option Layer :=
  Layer.lookupOrder.find? fun layer => (layers.get layer).contains name

/-- The value that a path leads to when its first segment names a layer. -/
def lookupQualified (layers : Layers) (path : Path) : Option Json.Value :=
  match path with
  | [] => none
  | first :: rest =>
    match Layer.ofName? first with
    | none => none
    | some layer =>
      if rest.isEmpty then some (.object (layers.get layer)) else layers.lookupIn layer rest

/-- Whether a path means something in a loop only. -/
def isLoopPath (path : Path) : Bool :=
  path == [""] || path == ["this"] || path == ["", ""] ||
    (path.head?.any fun first => first.toList.head? == some '@')

/-- **The value that a path leads to** outside of loops. -/
def lookup (layers : Layers) (path : Path) : Option Json.Value :=
  if isLoopPath path then none
  else
    match (path.head?.bind layers.owner?).bind (layers.lookupIn · path) with
    | some value => some value
    | none => layers.lookupQualified path

end Layers

end Trellis
