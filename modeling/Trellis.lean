import Trellis.Directory
import Trellis.Hydration.Registry
import Trellis.Proofs.Document.Attributes
import Trellis.Proofs.Document.Faults
import Trellis.Proofs.Document.Layout
import Trellis.Proofs.Document.Places
import Trellis.Proofs.Document.Roles
import Trellis.Proofs.Document.RoundTrip
import Trellis.Proofs.Document.Scanning
import Trellis.Proofs.FilePath
import Trellis.Proofs.Graph.Blame
import Trellis.Proofs.Graph.Dispatch
import Trellis.Proofs.Graph.Fingerprint
import Trellis.Proofs.Graph.Recording
import Trellis.Proofs.Graph.Rendering
import Trellis.Proofs.Hydration.Claims
import Trellis.Proofs.Hydration.Recovery
import Trellis.Proofs.Hydration.Registry
import Trellis.Proofs.Json.Merging
import Trellis.Proofs.Location
import Trellis.Proofs.Markup.Places
import Trellis.Proofs.Markup.Printing
import Trellis.Proofs.Markup.Tagless
import Trellis.Proofs.Page.Injection
import Trellis.Proofs.Page.Mount
import Trellis.Proofs.Page.Nearest
import Trellis.Proofs.Page.Partition
import Trellis.Proofs.Page.Priority
import Trellis.Proofs.Page.RawText
import Trellis.Proofs.Page.Values
import Trellis.Proofs.Recent
import Trellis.Proofs.Render.Limit
import Trellis.Proofs.Scope.Stack
import Trellis.Proofs.Site
import Trellis.Proofs.Snippet
import Trellis.Proofs.View.Entering
import Trellis.Proofs.View.Evaluation
import Trellis.Proofs.View.Gathering
import Trellis.Proofs.View.Isolation
import Trellis.Proofs.View.Keeping
import Trellis.Proofs.View.Layouts
import Trellis.Verbosity
import Trellis.View.Entering
