import Trellis.Proofs.Text.Cut
import Trellis.Scope.Basic
/-!
# Scope — which layer answers

The first layer that has a path's first segment as a key owns the path, client before
server before request (`Owner`). What the path leads to in that layer is the answer.
Where it leads nowhere there, or nobody owns it, the path is read once more in the data
whose keys are the names of the layers (`byName`). So the owner shadows what is behind
it, except where the path leads nowhere in the owner and somewhere by a layer's name
(`lookup_shadowed`).
-/

namespace Trellis

/-! ## Paths as they are written -/

namespace Path

variable {a b : List Char}

/-- The texts that mean something in a loop only, the blanks around them cut off. -/
def OfLoop (text : List Char) : Prop :=
  text = [] ∨ text = "this".toList ∨ text = ".".toList ∨ text.head? = some '@'

/-- The text of a path up to its first point. -/
def firstOf (text : String) : String :=
  String.ofList ((Text.trim text.toList).takeWhile (· ≠ '.'))

theorem head?_pieces (cs : List Char) :
    (Text.pieces '.' cs).head? = some (cs.takeWhile (· ≠ '.')) := by
  have hgo (piece : List Char) :
      (Text.pieces.go '.' piece cs).head? = some (piece.reverse ++ cs.takeWhile (· ≠ '.')) := by
    induction cs generalizing piece with
    | nil => simp [Text.pieces.go]
    | cons c cs ih =>
      rw [Text.pieces.go]
      split
      · next hpoint => simp [hpoint]
      · next hpoint => simp [hpoint, ih]
  exact hgo []

/-- The first segment of a path is its text up to the first point. -/
theorem head?_ofText (text : String) : (ofText text).head? = some (firstOf text) := by
  rw [ofText, segments, List.head?_map, head?_pieces]
  rfl

/-- The segments of a text say what the text is. -/
theorem segments_eq_iff : segments a = segments b ↔ a = b := by
  refine ⟨fun h => ?_, congrArg segments⟩
  have hpieces : Text.pieces '.' a = Text.pieces '.' b :=
    List.map_injective_iff.2 (fun _ _ => String.ofList_inj.1) h
  exact Text.pieces_injective '.' hpieces

/-- **The paths that lead nowhere outside of loops are those of these texts.** -/
theorem isLoopPath_ofText_iff (text : String) :
    Layers.isLoopPath (ofText text) = true ↔ OfLoop (Text.trim text.toList) := by
  have hempty : [""] = segments [] := by decide
  have hthis : ["this"] = segments "this".toList := by decide
  have hpoint : ["", ""] = segments ".".toList := by decide
  have hsign : (firstOf text).toList.head? = some '@' ↔
      (Text.trim text.toList).head? = some '@' := by
    rw [firstOf, String.toList_ofList]
    cases Text.trim text.toList with
    | nil => rfl
    | cons c cs =>
      by_cases hc : c = '.'
      · simp [hc]
      · simp [hc]
  simp only [Layers.isLoopPath, head?_ofText, Option.any_some, Bool.or_eq_true, beq_iff_eq, hsign]
  rw [hpoint, hempty, hthis, ofText]
  simp only [segments_eq_iff, OfLoop, or_assoc]

end Path

namespace Layers

variable {layers : Layers} {name : String} {layer : Layer} {path : Path}

/-! ## The owner of a name -/

/-- **The layer that owns a name**: the first of client, server and request that has it
as a key. -/
inductive Owner (layers : Layers) (name : String) : Layer → Prop where
  | client (h : layers.client.contains name = true) : Owner layers name .client
  | server (hclient : layers.client.contains name = false)
      (h : layers.server.contains name = true) : Owner layers name .server
  | request (hclient : layers.client.contains name = false)
      (hserver : layers.server.contains name = false)
      (h : layers.request.contains name = true) : Owner layers name .request

theorem owner?_of_owner (h : layers.Owner name layer) : layers.owner? name = some layer := by
  cases h with
  | client h => simp [owner?, Layer.lookupOrder, get, h]
  | server hclient h => simp [owner?, Layer.lookupOrder, get, hclient, h]
  | request hclient hserver h => simp [owner?, Layer.lookupOrder, get, hclient, hserver, h]

/-- **The layer that is asked for a name is its owner.** -/
theorem owner?_eq_some_iff : layers.owner? name = some layer ↔ layers.Owner name layer := by
  refine ⟨fun h => ?_, owner?_of_owner⟩
  -- the owner is found, so it is enough that there is one
  have hexists : ∃ owner, layers.Owner name owner := by
    by_cases hclient : layers.client.contains name = true
    · exact ⟨_, .client hclient⟩
    by_cases hserver : layers.server.contains name = true
    · exact ⟨_, .server (by simpa using hclient) hserver⟩
    by_cases hrequest : layers.request.contains name = true
    · exact ⟨_, .request (by simpa using hclient) (by simpa using hserver) hrequest⟩
    · simp [owner?, Layer.lookupOrder, get, hclient, hserver, hrequest] at h
  obtain ⟨owner, howner⟩ := hexists
  rw [owner?_of_owner howner, Option.some_inj] at h
  exact h ▸ howner

theorem owner?_eq_none_iff : layers.owner? name = none ↔ ∀ layer, ¬ layers.Owner name layer := by
  simp only [Option.eq_none_iff_forall_ne_some, ne_eq, owner?_eq_some_iff]

/-! ## Reading by a layer's name -/

/-- The data whose keys are the names of the layers. -/
def byName (layers : Layers) : Json.Fields :=
  [("client", .object layers.client), ("request", .object layers.request),
    ("server", .object layers.server)]

theorem get?_byName (layers : Layers) (name : String) :
    layers.byName.get? name = (Layer.ofName? name).map fun layer => .object (layers.get layer) := by
  have hswap {other : String} (h : name ≠ other) : other ≠ name := h.symm
  by_cases hclient : name = "client"
  · subst hclient
    rfl
  by_cases hrequest : name = "request"
  · subst hrequest
    rfl
  by_cases hserver : name = "server"
  · subst hserver
    rfl
  have hget : layers.byName.get? name = none := by
    simp [byName, Keyed.get?, hswap hclient, hswap hrequest, hswap hserver]
  have hlayer : Layer.ofName? name = none := by
    simp [Layer.ofName?, Layer.name, hswap hclient, hswap hrequest, hswap hserver]
  rw [hget, hlayer, Option.map_none]

/-- **A path that starts with a layer's name is read in the data under these names.** -/
theorem lookupQualified_eq (layers : Layers) (path : Path) :
    layers.lookupQualified path = Path.resolveIn? layers.byName path := by
  cases path with
  | nil => rfl
  | cons first rest =>
    rw [lookupQualified, Path.resolveIn?, get?_byName]
    cases Layer.ofName? first with
    | none => rfl
    | some layer => cases rest <;> rfl

/-- So nothing else is read there. -/
theorem resolveIn?_byName_eq_none (hname : ∀ layer : Layer, layer.name ≠ name) (rest : Path) :
    Path.resolveIn? layers.byName (name :: rest) = none := by
  have hlayer : Layer.ofName? name = none := by
    simp only [Layer.ofName?, List.find?_eq_none, beq_iff_eq]
    exact fun layer _ => hname layer
  rw [Path.resolveIn?, get?_byName, hlayer, Option.map_none, Option.bind_none]

/-! ## What a path leads to -/

variable {text : String}

theorem lookup_ofText (hpath : ¬ Path.OfLoop (Text.trim text.toList)) :
    layers.lookup (Path.ofText text) =
      ((layers.owner? (Path.firstOf text)).bind (layers.lookupIn · (Path.ofText text))).or
        (Path.resolveIn? layers.byName (Path.ofText text)) := by
  rw [lookup, if_neg (mt (Path.isLoopPath_ofText_iff text).1 hpath), Path.head?_ofText,
    Option.bind_some, lookupQualified_eq]
  cases (layers.owner? (Path.firstOf text)).bind (layers.lookupIn · (Path.ofText text)) <;> rfl

theorem lookup_of_owner (hpath : ¬ Path.OfLoop (Text.trim text.toList))
    (howner : layers.Owner (Path.firstOf text) layer) :
    layers.lookup (Path.ofText text) =
      (layers.lookupIn layer (Path.ofText text)).or
        (Path.resolveIn? layers.byName (Path.ofText text)) := by
  rw [lookup_ofText hpath, owner?_eq_some_iff.2 howner, Option.bind_some]

/-- **How the owner of a path shadows what is behind it.** -/
structure Shadowing (layers : Layers) (text : String) : Prop where
  /-- What the path leads to in its owner is the answer, and that it leads nowhere there
  as well, exactly if it leads somewhere there or nowhere by a layer's name. -/
  owned_iff : ∀ layer, layers.Owner (Path.firstOf text) layer →
    (layers.lookup (Path.ofText text) = layers.lookupIn layer (Path.ofText text) ↔
      layers.lookupIn layer (Path.ofText text) ≠ none ∨
        Path.resolveIn? layers.byName (Path.ofText text) = none)
  /-- So it is the answer for each path that does not start with a layer's name. -/
  owned : ∀ layer, layers.Owner (Path.firstOf text) layer →
    (∀ other : Layer, other.name ≠ Path.firstOf text) →
    layers.lookup (Path.ofText text) = layers.lookupIn layer (Path.ofText text)
  /-- A path without an owner is read by the name of a layer. -/
  unowned : (∀ layer, ¬ layers.Owner (Path.firstOf text) layer) →
    layers.lookup (Path.ofText text) = Path.resolveIn? layers.byName (Path.ofText text)
  /-- And so is one that leads nowhere in its owner. -/
  missed : ∀ layer, layers.Owner (Path.firstOf text) layer →
    layers.lookupIn layer (Path.ofText text) = none →
    layers.lookup (Path.ofText text) = Path.resolveIn? layers.byName (Path.ofText text)

/-- **The first layer that has a path's first segment answers it**, unless the path leads
nowhere there and somewhere by a layer's name. -/
theorem lookup_shadowed (layers : Layers) (hpath : ¬ Path.OfLoop (Text.trim text.toList)) :
    Shadowing layers text := by
  refine ⟨?_, ?_, ?_, ?_⟩
  · intro layer howner
    rw [lookup_of_owner hpath howner]
    cases hvalue : layers.lookupIn layer (Path.ofText text) with
    | none => simp
    | some value => simp
  · intro layer howner hname
    obtain ⟨rest, hrest⟩ := List.head?_eq_some_iff.1 (Path.head?_ofText text)
    rw [lookup_of_owner hpath howner, hrest, resolveIn?_byName_eq_none hname, Option.or_none]
  · intro hnone
    rw [lookup_ofText hpath, owner?_eq_none_iff.2 hnone, Option.bind_none, Option.none_or]
  · intro layer howner hmissed
    rw [lookup_of_owner hpath howner, hmissed, Option.none_or]

/-- The client's user hides the server's, whose role nothing leads to. -/
theorem lookup_shadowed_user :
    ¬ Path.OfLoop (Text.trim " user.role".toList) ∧
      Layers.lookup
        { client := [("user", .object [("name", .string "Ada")])]
          server := [("user", .object [("role", .string "admin")])] }
        (Path.ofText " user.role") = none := by
  have hpath : ¬ Path.OfLoop (Text.trim " user.role".toList) := by
    have htrim : Text.trim " user.role".toList = "user.role".toList := by decide
    rw [htrim]
    simp [Path.OfLoop]
  have hfirst : Path.firstOf " user.role" = "user" := by decide
  refine ⟨hpath, ?_⟩
  rw [(lookup_shadowed _ hpath).owned .client (.client (by rw [hfirst]; rfl)) ?_]
  · rfl
  · rw [hfirst]
    intro other
    cases other <;> decide

/-- A client's key with a layer's name does not hide what the path misses in it. -/
example : Layers.lookup
    { client := [("server", .object [("a", .bool true)])], server := [("secret", .string "s")] }
    (Path.ofText "server.secret") = some (.string "s") := by
  rfl

end Layers

end Trellis
