import Trellis.Proofs.Markup.Tagless
import Trellis.Proofs.View.Entering
/-!
# View — data that stay on the server

A document is discreet if nothing that it places under a window can come from the
server's side. What discreet documents place is known from their texts alone
(`placements_eq`), whatever the layers of the server and of the request. So two pages of
a graph of discreet documents that differ in those layers only have the same data for
scripts (`payload_isolated`).
-/

namespace Trellis

namespace View

open Hydration

variable {maker : Maker} {graph : Graph} {layers layers₁ layers₂ : Layers} {name : String}
  {member : Member} {d : Document} {merge : Option Json.Merge} {g next last last₁ last₂ : Gathered}
  {placement : Option Placement} {placements placements₁ placements₂ : List Placement}
  {members : List (String × Member)} {claims after₁ after₂ : Claims} {nonce : Option String}
  {page page₁ page₂ : Rendered}

/-- **That a document is discreet**: a schema has no window, and the text of data that
have one has no tags. -/
def Discreet (d : Document) : Prop :=
  if d.isSchema then d.window? = none else d.window? = none ∨ Markup.Tagless d.data.raw

instance (d : Document) : Decidable (Discreet d) :=
  inferInstanceAs (Decidable
    (if d.isSchema then d.window? = none else d.window? = none ∨ Markup.Tagless d.data.raw))

/-- That the documents among members are discreet. -/
def AllDiscreet (members : List (String × Member)) : Prop :=
  ∀ entry ∈ members, ∀ d ∈ entry.2.component.document?, Discreet d

instance (members : List (String × Member)) : Decidable (AllDiscreet members) :=
  List.decidableBAll (fun entry : String × Member =>
    ∀ d ∈ entry.2.component.document?, Discreet d) members

/-! ## What discreet documents place -/

/-- Data without tags have the same value in all layers. -/
theorem evaluate_of_tagless (h : Markup.Tagless d.data.raw) (maker : Maker)
    (layers layers' : Layers) (name : String) (member : Member) :
    evaluate maker layers name member d = evaluate maker layers' name member d := by
  unfold evaluate
  cases hread : Markup.parseAt d.data.raw d.data.contentPlace with
  | error e => rfl
  | ok nodes =>
    have htree := Render.tree_of_isText (Markup.isText_of_parseAt h hread)
      { maxDepth := maker.maxDepth, escaping := .string } (fun _ => none)
      (Scope.lookup { layers }) (Scope.lookup { layers := layers' })
    simp only [Except.mapError, bind, Except.bind, htree]

/-- What a discreet document places: its data under its window, if it has both. -/
def placed? (maker : Maker) (name : String) (member : Member) (d : Document) : Option Placement :=
  if d.isSchema || Text.isBlankText d.data.raw.toList then none
  else
    d.window?.bind fun window =>
      (evaluate maker {} name member d).toOption.map fun value =>
        ⟨window, value, d.mergeWord?.bind Json.Merge.ofName?⟩

/-- **What a discreet document contributes** to the client's side is known from its
text. -/
theorem Contributes.placement_eq (hdiscreet : Discreet d) (hmerge : declaredMerge name d = .ok merge)
    (h : Contributes maker layers name member d merge g placement next) :
    placement = placed? maker name member d := by
  unfold Discreet at hdiscreet
  cases h with
  | unnamedSchema hschema hunnamed => rw [placed?, if_pos (by simp [hschema])]
  | emptySchema hschema hnamed =>
    rw [if_pos hschema, hnamed] at hdiscreet
    cases hdiscreet
  | schema hschema hnamed =>
    rw [if_pos hschema, hnamed] at hdiscreet
    cases hdiscreet
  | blank hdata hblank => rw [placed?, if_pos (by simp [hblank])]
  | @named window claims value hdata hfilled hnamed hevaluates hregisters =>
    rw [if_neg (Bool.eq_false_iff.1 hdata), hnamed] at hdiscreet
    have htagless := hdiscreet.resolve_left (Option.some_ne_none window)
    rw [evaluate_of_tagless htagless maker _ {} name member] at hevaluates
    rw [placed?, if_neg (by simp [hdata, hfilled]), hnamed, hevaluates, eq_of_declaredMerge hmerge]
    rfl
  | unnamed hdata hfilled hunnamed =>
    rw [placed?, if_neg (by simp [hdata, hfilled]), hunnamed]
    rfl

/-- **What discreet members place** is known from their texts. -/
theorem Gathers.placements_eq (hdiscreet : AllDiscreet members)
    (h : Gathers maker layers g members placements last) :
    placements = ofDocuments (placed? maker) members := by
  induction h with
  | done => rfl
  | fragment hfragment _ ih =>
    obtain ⟨-, hmore⟩ := List.forall_mem_cons.1 hdiscreet
    rw [ofDocuments_fragment hfragment]
    exact ih hmore
  | document hdocument hmerge hcontributes _ ih =>
    obtain ⟨hfirst, hmore⟩ := List.forall_mem_cons.1 hdiscreet
    rw [ofDocuments_document hdocument, hcontributes.placement_eq (hfirst _ hdocument) hmerge,
      ih hmore]

/-! ## Two pages -/

/-- **That a page is made with a payload**: that of the data gathered for it, put into
the text that the graph shows with these data. -/
def Delivers (maker : Maker) (graph : Graph) (layers : Layers) (claims : Claims)
    (nonce : Option String) (payload : Payload) (page : Rendered) : Prop :=
  ∃ g placements text,
    Gathers maker layers (beginning layers claims) graph.members placements g ∧
    Shows maker graph (g.layers layers) text ∧
    payload = payloadOf g.client g.placed ∧ page.clientData = g.client ∧
    (⟨page.html, page.place⟩ : Page.Injector.Outcome) =
      hydrate maker graph.root nonce payload text

/-- **What discreet members gather on the client's side** and which claims they make does
not depend on the layers of the server and of the request. -/
theorem gathered_eq (hdiscreet : AllDiscreet members) (hclient : layers₁.client = layers₂.client)
    (h₁ : Gathers maker layers₁ (beginning layers₁ claims) members placements₁ last₁)
    (h₂ : Gathers maker layers₂ (beginning layers₂ claims) members placements₂ last₂) :
    last₁.client = last₂.client ∧ last₁.placed = last₂.placed ∧ last₁.claims = last₂.claims := by
  have hplacements : placements₁ = placements₂ :=
    (h₁.placements_eq hdiscreet).trans (h₂.placements_eq hdiscreet).symm
  refine ⟨?_, ?_, ?_⟩
  · rw [h₁.client_eq, h₂.client_eq, hplacements, beginning, beginning, hclient]
  · rw [h₁.placed_eq, h₂.placed_eq, hplacements]
    rfl
  · rw [h₁.claims_append, h₂.claims_append]
    rfl

/-- **The server's data stay on the server** unless a section with a window asks for
them: two pages of a graph of discreet documents have the same data for scripts, the same
claims and the same payload, if the layers differ on the server's side only. -/
theorem payload_isolated (hdiscreet : AllDiscreet graph.members)
    (hclient : layers₁.client = layers₂.client)
    (h₁ : render maker graph layers₁ claims nonce = (after₁, .ok page₁))
    (h₂ : render maker graph layers₂ claims nonce = (after₂, .ok page₂)) :
    page₁.clientData = page₂.clientData ∧ after₁ = after₂ ∧
      ∃ payload, Delivers maker graph layers₁ claims nonce payload page₁ ∧
        Delivers maker graph layers₂ claims nonce payload page₂ := by
  obtain ⟨g₁, placements₁, hgathers₁, rfl, hfinish₁⟩ := render_eq_ok_iff.1 h₁
  obtain ⟨g₂, placements₂, hgathers₂, rfl, hfinish₂⟩ := render_eq_ok_iff.1 h₂
  obtain ⟨text₁, hshows₁, hdata₁, hpage₁⟩ := finish_eq_ok_iff.1 hfinish₁
  obtain ⟨text₂, hshows₂, hdata₂, hpage₂⟩ := finish_eq_ok_iff.1 hfinish₂
  obtain ⟨hsame, hplaced, hclaims⟩ := gathered_eq hdiscreet hclient hgathers₁ hgathers₂
  have hpayload : payloadOf g₁.client g₁.placed = payloadOf g₂.client g₂.placed := by
    rw [hsame, hplaced]
  refine ⟨hdata₁.trans (hsame.trans hdata₂.symm), hclaims, payloadOf g₁.client g₁.placed, ?_, ?_⟩
  · exact ⟨g₁, placements₁, text₁, hgathers₁, hshows₁, rfl, hdata₁, hpage₁⟩
  · exact ⟨g₂, placements₂, text₂, hgathers₂, hshows₂, hpayload, hdata₂, hpayload ▸ hpage₂⟩

/-- A page with a menu for its scripts, and a greeting that is the server's alone. -/
def lobby : Collection where
  documents :=
    [("greeting", "<data>\x7b\"hello\": \"{{user}}\"\x7d</data><template>{{hello}}</template>"),
      ("page", "<data window='menu'>\x7b\"open\": true\x7d</data>" ++
        "<template>{{> greeting}}</template>")]

/-- Layers with a user on the server's side. -/
def lobbyLayers (user : String) : Layers where
  server := [("user", .string user)]

/-- The greeting shows another user, and the menu is the same. -/
theorem payload_isolated_lobby :
    ∃ graph after₁ after₂ page₁ page₂, Graph.resolve lobby.library "page" = .ok graph ∧
      AllDiscreet graph.members ∧ (lobbyLayers "Ann").client = (lobbyLayers "Bob").client ∧
      render {} graph (lobbyLayers "Ann") [] none = (after₁, .ok page₁) ∧
      render {} graph (lobbyLayers "Bob") [] none = (after₂, .ok page₂) ∧
      page₁.html ≠ page₂.html ∧ page₁.clientData = page₂.clientData ∧ after₁ = after₂ ∧
      ∃ payload, Delivers {} graph (lobbyLayers "Ann") [] none payload page₁ ∧
        Delivers {} graph (lobbyLayers "Bob") [] none payload page₂ := by
  have hgraph : (Graph.resolve lobby.library "page").isOk = true := by decide +kernel
  have hdiscreet : ∀ graph ∈ (Graph.resolve lobby.library "page").toOption,
      AllDiscreet graph.members := by decide +kernel
  have hhtml : ((Graph.resolve lobby.library "page").toOption.bind fun graph =>
      (render {} graph (lobbyLayers "Ann") [] none).2.toOption.bind fun page₁ =>
        (render {} graph (lobbyLayers "Bob") [] none).2.toOption.map fun page₂ =>
          page₁.html == page₂.html) = some false := by
    decide +kernel
  obtain ⟨graph, hgraph⟩ := Except.exists_eq_ok hgraph
  rw [hgraph] at hdiscreet hhtml
  rw [Except.toOption, Option.bind_some] at hhtml
  cases h₁ : render {} graph (lobbyLayers "Ann") [] none with
  | mk after₁ outcome₁ =>
    cases h₂ : render {} graph (lobbyLayers "Bob") [] none with
    | mk after₂ outcome₂ =>
      rw [h₁, h₂] at hhtml
      cases outcome₁ with
      | error e => cases hhtml
      | ok page₁ =>
        cases outcome₂ with
        | error e => cases hhtml
        | ok page₂ =>
          have hne : page₁.html ≠ page₂.html := by simpa [Except.toOption] using hhtml
          exact ⟨graph, after₁, after₂, page₁, page₂, hgraph, hdiscreet graph rfl, rfl, h₁, h₂, hne,
            payload_isolated (hdiscreet graph rfl) rfl h₁ h₂⟩

end View

end Trellis
