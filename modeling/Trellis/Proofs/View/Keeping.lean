import Trellis.Proofs.Json.Merging
import Trellis.Proofs.Json.RoundTrip
import Trellis.Proofs.View.Entering
import Trellis.Proofs.View.Evaluation
/-!
# View — the data that the server keeps

Data without a window go to the server's layer, field by field: a field whose key is there
is merged with what is under it, any other is added (`mergeServer_eq_writeAll`). For a deep
merge that is a merge of the whole layer (`mergeServer_deep`). A shallow merge of the whole
layer would replace what is under a key, but here two objects under one key are put together;
the two come to the same only where the data's object has all keys of the other
(`mergeServer_shallow_iff`).
-/

namespace Trellis

namespace View

variable {maker : Maker} {layers : Layers} {name : String} {member : Member} {d : Document}
  {merge : Option Json.Merge} {way : Json.Merge} {w : Workspace} {server : Json.Fields}
  {fields : List (String × Json.Value)} {value : Json.Value} {g next last : Gathered}
  {placement : Option Placement} {placements : List Placement}
  {members : List (String × Member)}

/-! ## Merging into the server's layer -/

/-- **What a field makes of the value under its key** in the server's layer: it is merged with
it if there is one. -/
def mergedOnto (way : Json.Merge) (there : Option Json.Value) (value : Json.Value) : Json.Value :=
  match there with
  | some slot => way.apply slot value
  | none => value

/-- The server's layer is written field by field. -/
theorem mergeServer_eq_writeAll (way : Json.Merge) (server : Json.Fields)
    (fields : List (String × Json.Value)) :
    mergeServer way server fields = Keyed.writeAll (mergedOnto way) server fields := by
  induction fields generalizing server with
  | nil => rfl
  | cons field fields ih =>
    obtain ⟨key, value⟩ := field
    have hfirst : mergeServer way server ((key, value) :: fields) =
        mergeServer way (server.insert key (mergedOnto way (server.get? key) value)) fields := by
      rw [mergeServer, List.foldl_cons, ← mergeServer]
      cases hthere : Keyed.get? server key <;> simp [mergedOnto, hthere]
    rw [hfirst, ih, Keyed.writeAll, Keyed.writeAll, List.foldl_cons]

/-- **A deep merge of fields** is one of the whole layer. -/
theorem mergeServer_deep (server : Json.Fields) (fields : List (String × Json.Value)) :
    Json.Value.object (mergeServer .deep server fields) =
      Json.Merge.deep.apply (.object server) (.object fields) := by
  have hsame : mergedOnto .deep = Json.Merge.onto .deep := by
    funext there value
    cases there <;> rfl
  rw [mergeServer_eq_writeAll, Json.Merge.apply_object, hsame]

/-- **A shallow merge of fields** is one of the whole layer exactly if no object under a key
has more keys than the data's object under it. -/
theorem mergeServer_shallow_iff (hserver : (Json.Value.object server).Ordered)
    (hfields : (Json.Value.object fields).Ordered) :
    Json.Value.object (mergeServer .shallow server fields) =
        Json.Merge.shallow.apply (.object server) (.object fields) ↔
      ∀ key f g, server.get? key = some (.object f) → Keyed.get? fields key = some (.object g) →
        ∀ inner ∈ Keyed.keys f, inner ∈ Keyed.keys g := by
  rw [mergeServer_eq_writeAll, Json.Merge.apply_object, Json.Value.object.injEq,
    Keyed.writeAll_eq_iff hserver.sorted hfields.sorted]
  constructor
  · intro h key f g hf hg
    have hsame := h key _ hg
    rw [hf, mergedOnto, Json.Merge.onto_shallow,
      Json.Merge.shallow_apply_eq_right_iff (hserver.get? hf) (hfields.get? hg)] at hsame
    exact hsame f g rfl rfl
  · intro h key value hvalue
    rw [Json.Merge.onto_shallow]
    cases hthere : Keyed.get? server key with
    | none => rfl
    | some slot =>
      refine (Json.Merge.shallow_apply_eq_right_iff (hserver.get? hthere)
        (hfields.get? hvalue)).2 ?_
      rintro f g rfl rfl
      exact h key f g hthere hvalue

/-- The server's layer stays in order. -/
theorem ordered_mergeServer (way : Json.Merge) (hserver : (Json.Value.object server).Ordered)
    (hfields : (Json.Value.object fields).Ordered) :
    (Json.Value.object (mergeServer way server fields)).Ordered := by
  rw [mergeServer_eq_writeAll]
  refine Json.ordered_writeAll hserver hfields fun key value hvalue => ?_
  cases hthere : Keyed.get? server key with
  | none => exact hfields.get? hvalue
  | some slot => exact Json.Merge.ordered_apply way (hserver.get? hthere) (hfields.get? hvalue)

/-! ## The value of a section -/

/-- The value of a data section is ordered. -/
theorem ordered_of_evaluate (h : evaluate maker layers name member d = .ok value) :
    value.Ordered := by
  obtain ⟨nodes, -, h⟩ := Except.bind_eq_ok_iff.1 h
  obtain ⟨text, -, h⟩ := Except.bind_eq_ok_iff.1 h
  exact Json.ordered_of_decode (Except.mapError_eq_ok_iff.1 h)

/-- **A section without tags has the value of its text**, whatever the layers. -/
theorem evaluate_of_unopened (htagless : ¬ Markup.opening false <:+: d.data.raw.toList)
    (hclosed : d.data.raw.toList.getLast? ≠ some '{') (maker : Maker) (layers : Layers)
    (name : String) (member : Member) :
    evaluate maker layers name member d =
      (Json.decode d.data.raw.toList).mapError (.data name) := by
  have hsettled := Template.settled_literal_of_unopened htagless hclosed
  obtain ⟨read, hread, hsame⟩ :=
    Markup.parseAt_writtenAll hsettled.wellFormed d.data.contentPlace
  rw [Template.writtenAll_nodes, Template.written_literal, String.ofList_toList] at hread
  have htree := Template.render_tree hsame maker.maxDepth (fun _ => none)
    (Scope.lookup { layers })
  rw [Template.shown_literal] at htree
  unfold evaluate
  rw [hread]
  simp only [Except.mapError, bind, Except.bind, htree]

/-- A blank section has no value. -/
theorem isBlankText_of_evaluate (h : evaluate maker layers name member d = .ok value) :
    Text.isBlankText d.data.raw.toList = false := by
  refine Bool.eq_false_iff.2 fun hblank => ?_
  have hbrace : '{' ∉ d.data.raw.toList := fun hmem =>
    Text.ne_of_isBlankText hblank (by decide) '{' hmem rfl
  have htagless : ¬ Markup.opening false <:+: d.data.raw.toList := fun hpart =>
    hbrace (hpart.subset List.mem_cons_self)
  have hclosed : d.data.raw.toList.getLast? ≠ some '{' := fun hlast =>
    hbrace (List.mem_of_getLast? hlast)
  rw [evaluate_of_unopened htagless hclosed, Except.mapError_eq_ok_iff] at h
  rw [Json.isBlankText_of_decode h] at hblank
  cases hblank

/-! ## Gathering -/

/-- A document leaves the server's layer in order. -/
theorem Contributes.ordered_server (hg : (Json.Value.object g.server).Ordered)
    (h : Contributes maker layers name member d merge g placement next) :
    (Json.Value.object next.server).Ordered := by
  cases h with
  | unnamed _ _ _ hevaluates => exact ordered_mergeServer _ hg (ordered_of_evaluate hevaluates)
  | _ => exact hg

/-- **The server's layer is in order behind each run** that begins with one in order. -/
theorem Gathers.ordered_server (hg : (Json.Value.object g.server).Ordered)
    (h : Gathers maker layers g members placements last) :
    (Json.Value.object last.server).Ordered := by
  induction h with
  | done => exact hg
  | fragment _ _ ih => exact ih hg
  | document _ _ hcontributes _ ih => exact ih (hcontributes.ordered_server hg)

/-- **What the server keeps** of a layer and fields that are merged into it. -/
structure Kept (way : Json.Merge) (there : Json.Fields) (fields : List (String × Json.Value))
    (server : Json.Fields) : Prop where
  /-- Under the key of a field is its value, merged with the one that was there. -/
  merged : ∀ {key value}, Keyed.get? fields key = some value →
    server.get? key = some (mergedOnto way (there.get? key) value)
  /-- All else is as it was. -/
  untouched : ∀ {key}, Keyed.get? fields key = none → server.get? key = there.get? key
  /-- If the merge is deep it is one of the whole layer. -/
  deep : way = .deep → Json.Value.object server =
    Json.Merge.deep.apply (.object there) (.object fields)
  /-- If it is shallow, it is one of the whole layer exactly if no object under a key has more
  keys than the data's object under it. -/
  shallow : way = .shallow → (Json.Value.object server =
      Json.Merge.shallow.apply (.object there) (.object fields) ↔
    ∀ key f g, there.get? key = some (.object f) → Keyed.get? fields key = some (.object g) →
      ∀ inner ∈ Keyed.keys f, inner ∈ Keyed.keys g)
  /-- The layer stays in order. -/
  ordered : (Json.Value.object server).Ordered

/-- **Data without a window are kept on the server's side**: the layer there is merged with
them, field by field, and nothing else changes. -/
theorem kept_of_aggregate (hserver : (Json.Value.object w.server).Ordered)
    (hdata : d.isSchema = false) (hunnamed : d.window? = none)
    (hmerge : declaredMerge name d = .ok merge)
    (hevaluates : evaluate maker (w.gathered.layers layers) name member d = .ok (.object fields)) :
    ∃ server, (aggregate maker layers name member d).on w = (.ok (), { w with server }) ∧
      Kept (merge.getD .shallow) w.server fields server := by
  have hfilled := isBlankText_of_evaluate hevaluates
  have hfields := ordered_of_evaluate hevaluates
  refine ⟨mergeServer (merge.getD .shallow) w.server fields, ?_, ?_⟩
  · unfold aggregate
    rw [Work.on_bind_of_ok (Work.on_lift hmerge w), if_neg (Bool.eq_false_iff.1 hdata),
      if_neg (Bool.eq_false_iff.1 hfilled), Work.on_bind_of_ok (Work.on_get w),
      Work.on_bind_of_ok (Work.on_lift hevaluates w), hunnamed]
    rfl
  · generalize merge.getD .shallow = way
    refine ⟨?_, ?_, ?_, ?_, ordered_mergeServer way hserver hfields⟩
    · intro key value hvalue
      rw [mergeServer_eq_writeAll, Keyed.get?_writeAll hfields.sorted.nodup, hvalue]
    · intro key hnone
      rw [mergeServer_eq_writeAll, Keyed.get?_writeAll hfields.sorted.nodup, hnone]
    · rintro rfl
      exact mergeServer_deep w.server fields
    · rintro rfl
      exact mergeServer_shallow_iff hserver hfields

/-- Data for a site. -/
def siteFields : Json.Fields := [("site", .object [("name", .string "new")])]

/-- A banner with these data, and no window. -/
def banner : Document where
  data := ⟨.data, [], "\x7b\"site\":\x7b\"name\":\"new\"\x7d\x7d", [], .start⟩
  template := ⟨.template, [], "x", [.text "x" .start], .start⟩
  logic := none

/-- The banner as a member. -/
def bannerMember : Member where
  component := .document banner
  source := "<data>\x7b\"site\":\x7b\"name\":\"new\"\x7d\x7d</data><template>x</template>"
  references := []

/-- A workspace whose server has data for the site. -/
def siteData : Workspace where
  server := [("site", .object [("lang", .string "en"), ("name", .string "old")])]
  client := []
  registry := .empty

/-- The site keeps its language, though the merge is shallow. -/
theorem kept_of_aggregate_banner :
    ∃ server, (aggregate {} {} "banner" bannerMember banner).on siteData =
        (.ok (), { siteData with server }) ∧
      server.get? "site" = some (.object [("lang", .string "en"), ("name", .string "new")]) ∧
      Json.Value.object server ≠
        Json.Merge.shallow.apply (.object siteData.server) (.object siteFields) := by
  have hnone {P : String × Json.Value → Prop} : ∀ field ∈ [], P field := List.forall_mem_nil P
  have hordered : (Json.Value.object siteData.server).Ordered := by
    simp only [siteData, Json.ordered_object_iff, List.forall_mem_cons]
    exact ⟨by decide, ⟨by decide, .string _, .string _, hnone⟩, hnone⟩
  have hwhole : (Json.Value.object siteFields).Whole :=
    .object _ (by decide) (List.forall_mem_cons.2
      ⟨.object _ (by decide) (List.forall_mem_cons.2 ⟨.string _, hnone⟩), hnone⟩)
  have hdecode : Json.decode banner.data.raw.toList = .ok (.object siteFields) := by
    have htext : Escape.script (Json.Value.object siteFields).written = banner.data.raw.toList := by
      decide +kernel
    rw [← htext]
    exact Json.decodeWithin_script hwhole (by decide)
  have hevaluates : evaluate {} (siteData.gathered.layers {}) "banner" bannerMember banner =
      .ok (.object siteFields) := by
    rw [evaluate_of_unopened (by decide) (by decide), hdecode]
    rfl
  obtain ⟨server, hrun, hkept⟩ := kept_of_aggregate hordered rfl rfl rfl hevaluates
  refine ⟨server, hrun, ?_, fun hsame => ?_⟩
  · have hsite : siteFields.get? "site" = some (.object [("name", .string "new")]) := rfl
    rw [hkept.merged hsite]
    rfl
  · have hlang := (hkept.shallow rfl).1 hsame "site" _ _ rfl rfl "lang" (by decide)
    revert hlang
    decide

end View

end Trellis
