import Trellis.Digest.Sha256
import Trellis.Graph.Basic
/-!
# Graph — fingerprints

The sources of a graph, put into one text in the order of their names, and the
hash of that text. Equal sources under equal names give equal fingerprints.
-/

namespace Trellis

namespace Graph

/-- The sources by name, in the order of the names. -/
def sources (g : Graph) : Keyed String :=
  Keyed.ofList (g.members.map fun (name, m) => (name, m.source))

/-- Names and sources behind one another, a null character behind each. -/
def fingerprintText (sources : Keyed String) : List Char :=
  sources.flatMap fun (name, source) => name.toList ++ '\x00' :: source.toList ++ ['\x00']

/-- **The fingerprint of a graph.** -/
def fingerprint (g : Graph) : String :=
  Digest.hex (Digest.sha256 (String.ofList (fingerprintText g.sources)).toUTF8.toList)

end Graph

end Trellis
