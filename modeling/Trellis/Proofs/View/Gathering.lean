import Trellis.Proofs.Except
import Trellis.Proofs.Hydration.Claims
import Trellis.Proofs.Hydration.Windows
import Trellis.View
/-!
# View — the data that reaches a page's scripts

What the section of one document does to the gathered data is said once
(`Contributes`), and what a run over the members does by following it (`Gathers`). The
client's layer changes by placements alone. So what is found there under a window is
what was placed there, put together in order, and everything else is as it was
(`accounts_of_render`).
-/

namespace Trellis

namespace View

open Hydration

variable {maker : Maker} {graph : Graph} {layers : Layers} {name window key : String}
  {member : Member} {d : Document} {merge : Option Json.Merge} {g next last : Gathered}
  {members : List (String × Member)} {claims after : Claims} {nonce : Option String}
  {page : Rendered}

/-! ## Placements -/

/-- Data that a section places under a window. -/
structure Placement where
  /-- The window. -/
  window : String
  /-- The data. -/
  value : Json.Value
  /-- How the data is merged with what is there. -/
  merge : Option Json.Merge

/-- **What a placement makes of the data under its window**: if it says how, it is merged
with what is there. Otherwise its own data stands alone. -/
def Placement.onto (p : Placement) (there : Option Json.Value) : Json.Value :=
  match p.merge, there with
  | some merge, some existing => merge.apply existing p.value
  | _, _ => p.value

/-- The client's layer with a placement in it. -/
def Placement.into (p : Placement) (client : Json.Fields) : Json.Fields :=
  client.insert p.window (p.onto (client.get? p.window))

variable {p : Placement} {placement : Option Placement} {placements : List Placement}

/-- A placement changes what is under its window only. -/
theorem Placement.get?_into (p : Placement) (client : Json.Fields) (window : String) :
    (p.into client).get? window =
      if p.window = window then some (p.onto (client.get? window)) else client.get? window := by
  rw [into, Keyed.get?_insert]
  split
  · next h => rw [h]
  · rfl

/-- **What is under a window after placements** is what those on it made of it. -/
theorem get?_foldl_into (placements : List Placement) (client : Json.Fields) (window : String) :
    (placements.foldl (fun client p => p.into client) client).get? window =
      (placements.filter fun p => p.window = window).foldl (fun there p => some (p.onto there))
        (client.get? window) := by
  induction placements generalizing client with
  | nil => rfl
  | cons p placements ih =>
    rw [List.foldl_cons, ih, p.get?_into]
    by_cases h : p.window = window <;> simp [h]

/-- After the first placement there is something for each of the others. -/
theorem foldl_onto_some (placements : List Placement) (value : Json.Value) :
    placements.foldl (fun there p => some (p.onto there)) (some value) =
      some (placements.foldl (fun value p => p.onto (some value)) value) := by
  induction placements generalizing value with
  | nil => rfl
  | cons p placements ih => exact ih (p.onto (some value))

/-! ## One document -/

/-- **What the section of a document contributes** to the data gathered so far, with its
way of merging: what is placed, if something is, and the data behind it. -/
inductive Contributes (maker : Maker) (layers : Layers) (name : String) (member : Member)
    (d : Document) (merge : Option Json.Merge) (g : Gathered) : Option Placement → Gathered → Prop
  /-- A schema without a window. -/
  | unnamedSchema (schema : d.isSchema = true) (unnamed : d.window? = none) :
      Contributes maker layers name member d merge g none g
  /-- A schema whose window has no value on the server's side is left at its claim. -/
  | emptySchema {window : String} {claims : Claims} (schema : d.isSchema = true)
      (named : d.window? = some window)
      (registers : g.claims.register (claimOf name window d merge) = .ok claims)
      (missing : (g.server.get? window).or (layers.request.get? window) = none) :
      Contributes maker layers name member d merge g none { g with claims }
  /-- A schema places the value that the server's side has for its window. -/
  | schema {window : String} {claims : Claims} {value : Json.Value} (schema : d.isSchema = true)
      (named : d.window? = some window)
      (registers : g.claims.register (claimOf name window d merge) = .ok claims)
      (found : (g.server.get? window).or (layers.request.get? window) = some value) :
      Contributes maker layers name member d merge g (some ⟨window, value, merge⟩)
        ({ g with claims }.place window value merge)
  /-- Blank data. -/
  | blank (data : d.isSchema = false) (blank : Text.isBlankText d.data.raw.toList = true) :
      Contributes maker layers name member d merge g none g
  /-- Data with a window are placed there. -/
  | named {window : String} {claims : Claims} {value : Json.Value} (data : d.isSchema = false)
      (filled : Text.isBlankText d.data.raw.toList = false) (named : d.window? = some window)
      (evaluates : evaluate maker (g.layers layers) name member d = .ok value)
      (registers : g.claims.register (claimOf name window d merge) = .ok claims) :
      Contributes maker layers name member d merge g (some ⟨window, value, merge⟩)
        ({ g with claims }.place window value merge)
  /-- Data without a window go to the server's layer. -/
  | unnamed {fields : List (String × Json.Value)} (data : d.isSchema = false)
      (filled : Text.isBlankText d.data.raw.toList = false) (unnamed : d.window? = none)
      (evaluates : evaluate maker (g.layers layers) name member d = .ok (.object fields)) :
      Contributes maker layers name member d merge g none
        { g with server := mergeServer (merge.getD .shallow) g.server fields }

/-- **Gathering the data of a document** is what its section contributes. -/
theorem gatherDocument_eq_ok_iff :
    gatherDocument maker layers g name member d = .ok next ↔
      ∃ merge, declaredMerge name d = .ok merge ∧
        ∃ placement, Contributes maker layers name member d merge g placement next := by
  constructor
  · intro h
    obtain ⟨merge, hmerge, h⟩ := Except.bind_eq_ok_iff.1 h
    refine ⟨merge, hmerge, ?_⟩
    split at h
    · next hschema =>
      split at h
      · next hunnamed =>
        obtain rfl := Except.ok.inj h
        exact ⟨_, .unnamedSchema hschema hunnamed⟩
      · next window hnamed =>
        obtain ⟨claims, hregisters, h⟩ := Except.bind_eq_ok_iff.1 h
        dsimp only at h
        split at h
        · next value hfound =>
          obtain rfl := Except.ok.inj h
          exact ⟨_, .schema hschema hnamed hregisters hfound⟩
        · next hmissing =>
          obtain rfl := Except.ok.inj h
          exact ⟨_, .emptySchema hschema hnamed hregisters hmissing⟩
    · next hdata =>
      have hdata := Bool.eq_false_iff.2 hdata
      split at h
      · next hblank =>
        obtain rfl := Except.ok.inj h
        exact ⟨_, .blank hdata hblank⟩
      · next hfilled =>
        have hfilled := Bool.eq_false_iff.2 hfilled
        obtain ⟨value, hevaluates, h⟩ := Except.bind_eq_ok_iff.1 h
        split at h
        · next window value hnamed =>
          obtain ⟨claims, hregisters, h⟩ := Except.bind_eq_ok_iff.1 h
          obtain rfl := Except.ok.inj h
          exact ⟨_, .named hdata hfilled hnamed hevaluates hregisters⟩
        · next fields hunnamed =>
          obtain rfl := Except.ok.inj h
          exact ⟨_, .unnamed hdata hfilled hunnamed hevaluates⟩
        · cases h
  · rintro ⟨merge, hmerge, placement, h⟩
    refine Except.bind_eq_ok_iff.2 ⟨merge, hmerge, ?_⟩
    cases h with
    | unnamedSchema hschema hunnamed =>
      rw [if_pos hschema, hunnamed]
      rfl
    | emptySchema hschema hnamed hregisters hmissing =>
      rw [if_pos hschema, hnamed]
      refine Except.bind_eq_ok_iff.2 ⟨_, hregisters, ?_⟩
      dsimp only
      rw [hmissing]
      rfl
    | schema hschema hnamed hregisters hfound =>
      rw [if_pos hschema, hnamed]
      refine Except.bind_eq_ok_iff.2 ⟨_, hregisters, ?_⟩
      dsimp only
      rw [hfound]
      rfl
    | blank hdata hblank =>
      rw [if_neg (Bool.eq_false_iff.1 hdata), if_pos hblank]
      rfl
    | named hdata hfilled hnamed hevaluates hregisters =>
      rw [if_neg (Bool.eq_false_iff.1 hdata), if_neg (Bool.eq_false_iff.1 hfilled)]
      refine Except.bind_eq_ok_iff.2 ⟨_, hevaluates, ?_⟩
      rw [hnamed]
      exact Except.bind_eq_ok_iff.2 ⟨_, hregisters, rfl⟩
    | unnamed hdata hfilled hunnamed hevaluates =>
      rw [if_neg (Bool.eq_false_iff.1 hdata), if_neg (Bool.eq_false_iff.1 hfilled)]
      refine Except.bind_eq_ok_iff.2 ⟨_, hevaluates, ?_⟩
      rw [hunnamed]
      rfl

namespace Contributes

variable (h : Contributes maker layers name member d merge g placement next)
include h

/-- **The client's layer changes by what is placed.** -/
theorem client_eq :
    next.client = placement.toList.foldl (fun client p => p.into client) g.client := by
  cases h <;> rfl

theorem placed_eq :
    next.placed = (placement.toList.map Placement.window).foldl
      (fun placed window => if placed.contains window then placed else placed ++ [window])
      g.placed := by
  cases h <;> rfl

/-- Claims are entered behind the others. -/
theorem claims_eq :
    next.claims = g.claims ∨ ∃ window, d.window? = some window ∧
      g.claims.register (claimOf name window d merge) = .ok next.claims := by
  cases h with
  | unnamedSchema => exact .inl rfl
  | emptySchema _ hnamed hregisters => exact .inr ⟨_, hnamed, hregisters⟩
  | schema _ hnamed hregisters => exact .inr ⟨_, hnamed, hregisters⟩
  | blank => exact .inl rfl
  | named _ _ hnamed _ hregisters => exact .inr ⟨_, hnamed, hregisters⟩
  | unnamed => exact .inl rfl

/-- A window that is claimed stays so. -/
theorem isClaimed (hclaimed : g.claims.isClaimed window = true) :
    next.claims.isClaimed window = true := by
  rcases h.claims_eq with heq | ⟨_, -, hregisters⟩
  · rw [heq]
    exact hclaimed
  · obtain ⟨-, -, -, heq⟩ := Claims.register_eq_ok_iff.1 hregisters
    rw [heq]
    exact Claims.isClaimed_concat.2 (.inl hclaimed)

/-- **What is placed is claimed**, with a way of merging if it was claimed before. -/
theorem claimed (hplaced : p ∈ placement) :
    (g.claims.isClaimed p.window = true → p.merge.isSome = true) ∧
      next.claims.isClaimed p.window = true := by
  have hclaimed {window : String} {claims : Claims}
      (hregisters : g.claims.register (claimOf name window d merge) = .ok claims) :
      (g.claims.isClaimed window = true → merge.isSome = true) ∧
        claims.isClaimed window = true := by
    obtain ⟨-, -, hmerge, heq⟩ := Claims.register_eq_ok_iff.1 hregisters
    rw [heq]
    exact ⟨hmerge, Claims.isClaimed_concat.2 (.inr rfl)⟩
  cases h with
  | schema _ _ hregisters =>
    obtain rfl := Option.some.inj hplaced
    exact hclaimed hregisters
  | named _ _ _ _ hregisters =>
    obtain rfl := Option.some.inj hplaced
    exact hclaimed hregisters
  | unnamedSchema => cases hplaced
  | emptySchema => cases hplaced
  | blank => cases hplaced
  | unnamed => cases hplaced

end Contributes

/-! ## All members -/

/-- **A run over members**, with what their sections place, in order. -/
inductive Gathers (maker : Maker) (layers : Layers) :
    Gathered → List (String × Member) → List Placement → Gathered → Prop
  /-- No member is left. -/
  | done {g : Gathered} : Gathers maker layers g [] [] g
  /-- A member that is markup has no data. -/
  | fragment {g last : Gathered} {name : String} {member : Member}
      {rest : List (String × Member)} {placements : List Placement}
      (fragment : member.component.document? = none)
      (more : Gathers maker layers g rest placements last) :
      Gathers maker layers g ((name, member) :: rest) placements last
  /-- The section of a document contributes. -/
  | document {g next last : Gathered} {name : String} {member : Member} {d : Document}
      {merge : Option Json.Merge} {placement : Option Placement}
      {rest : List (String × Member)} {placements : List Placement}
      (document : member.component.document? = some d)
      (declares : declaredMerge name d = .ok merge)
      (contributes : Contributes maker layers name member d merge g placement next)
      (more : Gathers maker layers next rest placements last) :
      Gathers maker layers g ((name, member) :: rest) (placement.toList ++ placements) last

/-- **Gathering the data of members** is a run over them. -/
theorem gather_eq_ok_iff :
    gather maker layers g members = (after, .ok last) ↔
      after = last.claims ∧ ∃ placements, Gathers maker layers g members placements last := by
  induction members generalizing g with
  | nil =>
    rw [gather]
    constructor
    · intro h
      obtain ⟨rfl, hlast⟩ := Prod.mk.inj h
      obtain rfl := Except.ok.inj hlast
      exact ⟨rfl, [], .done⟩
    · rintro ⟨rfl, placements, h⟩
      cases h
      rfl
  | cons entry members ih =>
    obtain ⟨name, member⟩ := entry
    rw [gather]
    constructor
    · intro h
      split at h
      · next hfragment =>
        obtain ⟨hafter, placements, hmore⟩ := ih.1 h
        exact ⟨hafter, placements, .fragment hfragment hmore⟩
      · next d hdocument =>
        split at h
        · next next hnext =>
          obtain ⟨merge, hmerge, placement, hcontributes⟩ := gatherDocument_eq_ok_iff.1 hnext
          obtain ⟨hafter, placements, hmore⟩ := ih.1 h
          exact ⟨hafter, _, .document hdocument hmerge hcontributes hmore⟩
        · cases h
    · rintro ⟨rfl, placements, h⟩
      cases h with
      | fragment hfragment hmore =>
        rw [hfragment]
        exact ih.2 ⟨rfl, placements, hmore⟩
      | document hdocument hmerge hcontributes hmore =>
        rw [hdocument]
        dsimp only
        rw [gatherDocument_eq_ok_iff.2 ⟨_, hmerge, _, hcontributes⟩]
        exact ih.2 ⟨rfl, _, hmore⟩

namespace Gathers

/-- The client's layer after a run. -/
theorem client_eq (h : Gathers maker layers g members placements last) :
    last.client = placements.foldl (fun client p => p.into client) g.client := by
  induction h with
  | done => rfl
  | fragment _ _ ih => exact ih
  | document _ _ hcontributes _ ih => rw [ih, hcontributes.client_eq, List.foldl_append]

theorem placed_eq (h : Gathers maker layers g members placements last) :
    last.placed = (placements.map Placement.window).foldl
      (fun placed window => if placed.contains window then placed else placed ++ [window])
      g.placed := by
  induction h with
  | done => rfl
  | fragment _ _ ih => exact ih
  | document _ _ hcontributes _ ih =>
    rw [ih, hcontributes.placed_eq, List.map_append, List.foldl_append]

/-- Whatever is placed under a window that is claimed before the run says how it is
merged. -/
theorem isSome_merge (h : Gathers maker layers g members placements last)
    (hclaimed : g.claims.isClaimed window = true) (hp : p ∈ placements)
    (hwindow : p.window = window) : p.merge.isSome = true := by
  induction h with
  | done => cases hp
  | fragment _ _ ih => exact ih hclaimed hp
  | document _ _ hcontributes _ ih =>
    rcases List.mem_append.1 hp with hp | hp
    · refine (hcontributes.claimed (Option.mem_toList.1 hp)).1 ?_
      rw [hwindow]
      exact hclaimed
    · exact ih (hcontributes.isClaimed hclaimed) hp

/-- **Whatever is placed where something was placed before** says how it is merged. -/
theorem pairwise_merge (h : Gathers maker layers g members placements last) :
    placements.Pairwise fun p q => q.window = p.window → q.merge.isSome = true := by
  induction h with
  | done => exact List.Pairwise.nil
  | fragment _ _ ih => exact ih
  | @document _ _ _ _ _ _ _ placement _ _ _ _ hcontributes hmore ih =>
    cases placement with
    | none => exact ih
    | some p =>
      have hclaimed := (hcontributes.claimed rfl).2
      exact List.Pairwise.cons (fun q hq hwindow => hmore.isSome_merge hclaimed hq hwindow) ih

variable {first : Placement} {later : List Placement}

/-- What nothing was placed under is as it was. -/
theorem get?_client_of_not_mem (h : Gathers maker layers g members placements last)
    (hkey : key ∉ placements.map Placement.window) : last.client.get? key = g.client.get? key := by
  have hnone : placements.filter (fun p => p.window = key) = [] := by simpa using hkey
  rw [h.client_eq, get?_foldl_into, hnone, List.foldl_nil]

/-- **Under a window is what was placed there**, put together in order. -/
theorem get?_client (h : Gathers maker layers g members placements last)
    (hwindow : placements.filter (fun p => p.window = window) = first :: later) :
    last.client.get? window =
      some (later.foldl (fun value p => p.onto (some value))
        (first.onto (g.client.get? window))) := by
  rw [h.client_eq, get?_foldl_into, hwindow, List.foldl_cons, foldl_onto_some]

/-- All but the first placement under a window say how they are merged. -/
theorem isSome_merge_of_later (h : Gathers maker layers g members placements last)
    (hwindow : placements.filter (fun p => p.window = window) = first :: later) (hp : p ∈ later) :
    p.merge.isSome = true := by
  have hpairwise := h.pairwise_merge.filter (fun p => p.window = window)
  have hsame : ∀ q ∈ first :: later, q.window = window := by
    rw [← hwindow]
    simp
  rw [hwindow] at hpairwise
  refine (List.pairwise_cons.1 hpairwise).1 p hp ?_
  rw [hsame p (List.mem_cons_of_mem first hp), hsame first List.mem_cons_self]

end Gathers

/-! ## The payload -/

/-- **A payload holds the windows that data was placed under**, each with its data. -/
theorem names_payloadOf {client : Json.Fields} {placed : List String} (hnodup : placed.Nodup)
    (hthere : ∀ window ∈ placed, ∃ value, client.get? window = some value) :
    (payloadOf client placed).names = placed ∧
      ∀ entry ∈ payloadOf client placed, client.get? entry.1 = some entry.2 := by
  induction placed using List.reverseRecOn with
  | nil => exact ⟨rfl, List.forall_mem_nil _⟩
  | append_singleton placed window ih =>
    obtain ⟨hplaced, -, hfresh⟩ := List.nodup_append.1 hnodup
    obtain ⟨hnames, hentries⟩ :=
      ih hplaced fun window hwindow => hthere window (List.mem_append_left _ hwindow)
    obtain ⟨value, hvalue⟩ := hthere window (List.mem_append_right _ List.mem_cons_self)
    have hnew : window ∉ (payloadOf client placed).names := by
      rw [hnames]
      exact fun hmem => hfresh window hmem window List.mem_cons_self rfl
    have hinsert : payloadOf client (placed ++ [window]) =
        (payloadOf client placed).insert window value := by
      rw [payloadOf, List.foldl_append, List.foldl_cons, List.foldl_nil, hvalue]
      rfl
    rw [hinsert]
    refine ⟨?_, fun entry hentry => ?_⟩
    · rw [Payload.names_insert, if_neg hnew, hnames]
    · rw [← hnames] at hplaced
      rcases (Payload.mem_insert hplaced).1 hentry with rfl | ⟨hentry, -⟩
      · exact hvalue
      · exact hentries entry hentry

/-- **The payload of a run** has the windows of its placements, each once and in the order
of their first placements, with the data that is there at the end. -/
theorem Gathers.names_payload (h : Gathers maker layers g members placements last)
    (hnone : g.placed = []) :
    (payloadOf last.client last.placed).names = (placements.map Placement.window).eraseDups ∧
      ∀ entry ∈ payloadOf last.client last.placed, last.client.get? entry.1 = some entry.2 := by
  have hplaced : last.placed = Text.distinct (placements.map Placement.window) := by
    rw [h.placed_eq, hnone]
    rfl
  rw [← Text.distinct_eq_eraseDups, ← hplaced]
  refine names_payloadOf ?_ fun window hwindow => ?_
  · rw [hplaced]
    exact Text.nodup_distinct _
  · rw [hplaced, Text.mem_distinct, List.mem_map] at hwindow
    obtain ⟨p, hp, rfl⟩ := hwindow
    have hmem : p ∈ placements.filter fun q => q.window = p.window :=
      List.mem_filter.2 ⟨hp, decide_eq_true rfl⟩
    obtain ⟨first, later, hsome⟩ := List.exists_cons_of_ne_nil (List.ne_nil_of_mem hmem)
    exact ⟨_, h.get?_client hsome⟩

/-! ## The page -/

/-- That a graph shows a text: its root's tree with its layouts around it. -/
def Shows (maker : Maker) (graph : Graph) (layers : Layers) (text : List Char) : Prop :=
  ∃ root inner, graph.member? graph.root = some root ∧
    Render.tree maker.manner graph.partials root.component.nodes (Scope.lookup { layers }) =
      .ok inner ∧
    withLayouts maker graph layers graph.layoutChain inner = .ok text

theorem finish_eq_ok_iff :
    finish maker graph layers nonce g = .ok page ↔
      ∃ text, Shows maker graph (g.layers layers) text ∧
        page.clientData = g.client ∧
        (⟨page.html, page.place⟩ : Page.Injector.Outcome) =
          hydrate maker graph.root nonce (payloadOf g.client g.placed) text := by
  unfold finish Shows
  cases hroot : graph.member? graph.root with
  | none => simp [throw, throwThe, MonadExceptOf.throw]
  | some root =>
    simp only [Option.some.injEq, Except.bind_eq_ok_iff]
    constructor
    · rintro ⟨inner, hinner, text, htext, hpage⟩
      obtain rfl := Except.ok.inj hpage
      exact ⟨text, ⟨root, inner, rfl, hinner, htext⟩, rfl, rfl⟩
    · rintro ⟨text, ⟨root, inner, rfl, hinner, htext⟩, hclient, houtcome⟩
      refine ⟨inner, hinner, text, htext, ?_⟩
      rw [← houtcome, ← hclient]
      rfl

/-- Where gathering begins. -/
def beginning (layers : Layers) (claims : Claims) : Gathered where
  server := layers.server
  client := layers.client
  claims := claims

/-- **Making a page** is a run over the members, and finishing what it gathers. -/
theorem render_eq_ok_iff :
    render maker graph layers claims nonce = (after, .ok page) ↔
      ∃ g placements, Gathers maker layers (beginning layers claims) graph.members placements g ∧
        after = g.claims ∧ finish maker graph layers nonce g = .ok page := by
  unfold render
  dsimp only
  constructor
  · intro h
    split at h
    · cases h
    · next claims g hgather =>
      obtain ⟨rfl, hfinish⟩ := Prod.mk.inj h
      obtain ⟨hafter, placements, hrun⟩ := gather_eq_ok_iff.1 hgather
      exact ⟨g, placements, hrun, hafter, hfinish⟩
  · rintro ⟨g, placements, hrun, rfl, hfinish⟩
    have hgather := gather_eq_ok_iff.2 ⟨rfl, placements, hrun⟩
    rw [beginning] at hgather
    rw [hgather, ← hfinish]

/-- **How a page comes from the placements** of the run that gathered its data. -/
structure Accounts (maker : Maker) (graph : Graph) (layers : Layers) (nonce : Option String)
    (placements : List Placement) (g : Gathered) (page : Rendered) : Prop where
  /-- What nothing was placed under is as it was. -/
  untouched : ∀ key, key ∉ placements.map Placement.window →
    page.clientData.get? key = layers.client.get? key
  /-- Under a window is what was placed there, put together in order. -/
  combined : ∀ window first later,
    placements.filter (fun p => p.window = window) = first :: later →
      page.clientData.get? window =
        some (later.foldl (fun value p => p.onto (some value))
          (first.onto (layers.client.get? window)))
  /-- All but the first say how they are merged. -/
  merged : ∀ window first later,
    placements.filter (fun p => p.window = window) = first :: later →
      ∀ p ∈ later, p.merge.isSome = true
  /-- The text that the graph shows is the page, or has the markup of a payload put in if
  there are placements: that of their windows, in order, with the data under them. -/
  delivered : ∃ text, Shows maker graph (g.layers layers) text ∧
    (placements = [] → page.html = text ∧ page.place = none) ∧
    (placements ≠ [] → ∃ payload : Payload,
      payload.names = (placements.map Placement.window).eraseDups ∧
      (∀ entry ∈ payload, page.clientData.get? entry.1 = some entry.2) ∧
      (⟨page.html, page.place⟩ : Page.Injector.Outcome) =
        maker.injector.inject text (payload.markup nonce) (some graph.root))

/-- **A page that is made accounts for its data.** The run over the graph's members says
what was placed, in order; the client's layer and the payload follow from that. -/
theorem accounts_of_render
    (h : render maker graph layers claims nonce = (after, .ok page)) :
    ∃ g placements, Gathers maker layers (beginning layers claims) graph.members placements g ∧
      Accounts maker graph layers nonce placements g page := by
  obtain ⟨g, placements, hrun, -, hfinish⟩ := render_eq_ok_iff.1 h
  obtain ⟨text, hshows, hdata, hpage⟩ := finish_eq_ok_iff.1 hfinish
  obtain ⟨hnames, hentries⟩ := hrun.names_payload rfl
  have hempty : (payloadOf g.client g.placed).isEmpty = true ↔ placements = [] := by
    rw [List.isEmpty_iff, ← List.map_eq_nil_iff (f := Prod.fst), ← Payload.names, hnames]
    cases placements <;> simp [List.eraseDups_cons]
  refine ⟨g, placements, hrun, ?_, ?_, fun window first later => ?_, text, hshows, ?_, ?_⟩
  · intro key hkey
    rw [hdata]
    exact hrun.get?_client_of_not_mem hkey
  · intro window first later hwindow
    rw [hdata]
    exact hrun.get?_client hwindow
  · exact fun hwindow p hp => hrun.isSome_merge_of_later hwindow hp
  · intro hnone
    rw [hydrate, if_pos (hempty.2 hnone)] at hpage
    exact ⟨congrArg (·.html) hpage, congrArg (·.place) hpage⟩
  · intro hsome
    rw [hydrate, if_neg fun hnone => hsome (hempty.1 hnone)] at hpage
    rw [hdata]
    exact ⟨payloadOf g.client g.placed, hnames, hentries, hpage⟩

/-- A page that shares a window with its badge, and data without a window. -/
def desk : Collection where
  documents :=
    [("badge", "<data window='user'>\x7b\"role\": 1\x7d</data><template>b</template>"),
      ("page", "<data window='user' merge='deep'>\x7b\"name\": 2\x7d</data>" ++
        "<template>{{> badge}}{{> secret}}</template>"),
      ("secret", "<data>\x7b\"token\": 3\x7d</data><template>s</template>")]

/-- Layers with something under the window. -/
def deskLayers : Layers where
  client := [("user", .null)]

/-- The badge takes the place of what was there, and the page is merged with it. -/
theorem accounts_of_render_desk :
    ∃ graph after page, Graph.resolve desk.library "page" = .ok graph ∧
      render {} graph deskLayers [] none = (after, .ok page) ∧
      (page.clientData.get? "user").map Json.Value.written =
        some "\x7b\"name\":2,\"role\":1\x7d".toList ∧
      ∃ g placements,
        Gathers {} deskLayers (beginning deskLayers []) graph.members placements g ∧
          Accounts {} graph deskLayers none placements g page := by
  have hgraph : (Graph.resolve desk.library "page").isOk = true := by decide +kernel
  have hdata : ((Graph.resolve desk.library "page").toOption.bind fun graph =>
      (render {} graph deskLayers [] none).2.toOption.bind fun page =>
        (page.clientData.get? "user").map Json.Value.written) =
      some "\x7b\"name\":2,\"role\":1\x7d".toList := by
    decide +kernel
  obtain ⟨graph, hgraph⟩ := Except.exists_eq_ok hgraph
  rw [hgraph] at hdata
  cases hrender : render {} graph deskLayers [] none with
  | mk after outcome =>
    rw [Except.toOption, Option.bind_some, hrender] at hdata
    cases outcome with
    | error e => cases hdata
    | ok page => exact ⟨graph, after, page, hgraph, hrender, hdata, accounts_of_render hrender⟩

end View

end Trellis
