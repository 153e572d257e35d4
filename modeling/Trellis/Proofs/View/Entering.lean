import Trellis.Proofs.Hydration.Registry
import Trellis.Proofs.View.Gathering
import Trellis.View.Entering
/-!
# View — which claims a page leaves behind

A document fails for one of the reasons in `Fails`, or contributes. Members are gathered
up to the first that fails (`gather_stops`). The steps of gathering that work on a
workspace do the same: what contributes enters the claim of its document and no other
(`aggregate_of_contributes`), and what fails leaves the workspace as it was
(`aggregate_of_fails`). So the claims behind a page are known, whether there is a page
or not (`entered_renderInto`).
-/

namespace Trellis

namespace View

open Hydration

variable {α β : Type} {maker : Maker} {graph : Graph} {layers : Layers} {name window : String}
  {member : Member} {d : Document} {merge : Option Json.Merge} {g next last : Gathered}
  {placement : Option Placement} {placements : List Placement}
  {members processed rest : List (String × Member)} {claim : Claim} {claims : Claims}
  {before : Registry} {nonce : Option String} {w w' : Workspace} {e : Failure}

/-! ## Why a document fails -/

/-- **Why the data of a document are not gathered.** -/
inductive Fails (maker : Maker) (layers : Layers) (name : String) (member : Member)
    (d : Document) (g : Gathered) : Failure → Prop
  /-- Its way of merging is not known. -/
  | unknownMerge {word : String} (declared : d.mergeWord? = some word)
      (unknown : Json.Merge.ofName? word = none) :
      Fails maker layers name member d g (.invalid (.unknownMerge word name))
  /-- It is a schema whose claim is refused. -/
  | schema {merge : Option Json.Merge} {window : String} {e : Failure}
      (declares : declaredMerge name d = .ok merge) (schema : d.isSchema = true)
      (named : d.window? = some window)
      (refused : Claims.Refused g.claims (claimOf name window d merge) e) :
      Fails maker layers name member d g e
  /-- Its text cannot be shown, or is not data. -/
  | unevaluated {merge : Option Json.Merge} {e : Failure}
      (declares : declaredMerge name d = .ok merge) (data : d.isSchema = false)
      (filled : Text.isBlankText d.data.raw.toList = false)
      (fails : evaluate maker (g.layers layers) name member d = .error e) :
      Fails maker layers name member d g e
  /-- It has data, but the claim on their window is refused. -/
  | named {merge : Option Json.Merge} {value : Json.Value} {window : String} {e : Failure}
      (declares : declaredMerge name d = .ok merge) (data : d.isSchema = false)
      (filled : Text.isBlankText d.data.raw.toList = false)
      (evaluates : evaluate maker (g.layers layers) name member d = .ok value)
      (named : d.window? = some window)
      (refused : Claims.Refused g.claims (claimOf name window d merge) e) :
      Fails maker layers name member d g e
  /-- It has data without a window that are no object. -/
  | unnamed {merge : Option Json.Merge} {value : Json.Value}
      (declares : declaredMerge name d = .ok merge) (data : d.isSchema = false)
      (filled : Text.isBlankText d.data.raw.toList = false)
      (evaluates : evaluate maker (g.layers layers) name member d = .ok value)
      (unnamed : d.window? = none) (shapeless : ∀ fields, value ≠ .object fields) :
      Fails maker layers name member d g (.invalid (.unnamedDataNotMapping name))

theorem declaredMerge_eq_error_iff :
    declaredMerge name d = .error e ↔ ∃ word, d.mergeWord? = some word ∧
      Json.Merge.ofName? word = none ∧ e = .invalid (.unknownMerge word name) := by
  unfold declaredMerge
  cases d.mergeWord? with
  | none => simp
  | some word => cases hword : Json.Merge.ofName? word <;> simp [hword, eq_comm (a := e)]

/-- **Gathering the data of a document fails** for the reasons there are. -/
theorem gatherDocument_eq_error_iff :
    gatherDocument maker layers g name member d = .error e ↔
      Fails maker layers name member d g e := by
  constructor
  · intro h
    rcases Except.bind_eq_error_iff.1 h with hmerge | ⟨merge, hmerge, h⟩
    · obtain ⟨word, hdeclared, hunknown, rfl⟩ := declaredMerge_eq_error_iff.1 hmerge
      exact .unknownMerge hdeclared hunknown
    split at h
    · next hschema =>
      split at h
      · cases h
      · next window hnamed =>
        rcases Except.bind_eq_error_iff.1 h with hrefused | ⟨claims, -, h⟩
        · exact .schema hmerge hschema hnamed (Claims.register_eq_error_iff.1 hrefused)
        · dsimp only at h
          split at h <;> cases h
    · next hdata =>
      have hdata := Bool.eq_false_iff.2 hdata
      split at h
      · cases h
      · next hfilled =>
        have hfilled := Bool.eq_false_iff.2 hfilled
        rcases Except.bind_eq_error_iff.1 h with hfails | ⟨value, hevaluates, h⟩
        · exact .unevaluated hmerge hdata hfilled hfails
        split at h
        · next window value hnamed =>
          rcases Except.bind_eq_error_iff.1 h with hrefused | ⟨claims, -, h⟩
          · exact .named hmerge hdata hfilled hevaluates hnamed
              (Claims.register_eq_error_iff.1 hrefused)
          · cases h
        · cases h
        · next value hunnamed hshapeless =>
          obtain rfl := Except.error.inj h
          exact .unnamed hmerge hdata hfilled hevaluates hunnamed hshapeless
  · intro h
    refine Except.bind_eq_error_iff.2 ?_
    cases h with
    | unknownMerge hdeclared hunknown =>
      exact .inl (declaredMerge_eq_error_iff.2 ⟨_, hdeclared, hunknown, rfl⟩)
    | schema hmerge hschema hnamed hrefused =>
      refine .inr ⟨_, hmerge, ?_⟩
      rw [if_pos hschema, hnamed]
      exact Except.bind_eq_error_iff.2 (.inl (Claims.register_eq_error_iff.2 hrefused))
    | unevaluated hmerge hdata hfilled hfails =>
      refine .inr ⟨_, hmerge, ?_⟩
      rw [if_neg (Bool.eq_false_iff.1 hdata), if_neg (Bool.eq_false_iff.1 hfilled)]
      exact Except.bind_eq_error_iff.2 (.inl hfails)
    | named hmerge hdata hfilled hevaluates hnamed hrefused =>
      refine .inr ⟨_, hmerge, ?_⟩
      rw [if_neg (Bool.eq_false_iff.1 hdata), if_neg (Bool.eq_false_iff.1 hfilled)]
      refine Except.bind_eq_error_iff.2 (.inr ⟨_, hevaluates, ?_⟩)
      rw [hnamed]
      exact Except.bind_eq_error_iff.2 (.inl (Claims.register_eq_error_iff.2 hrefused))
    | @unnamed merge value hmerge hdata hfilled hevaluates hunnamed hshapeless =>
      refine .inr ⟨_, hmerge, ?_⟩
      rw [if_neg (Bool.eq_false_iff.1 hdata), if_neg (Bool.eq_false_iff.1 hfilled)]
      refine Except.bind_eq_error_iff.2 (.inr ⟨_, hevaluates, ?_⟩)
      rw [hunnamed]
      cases value with
      | object fields => exact absurd rfl (hshapeless fields)
      | _ => rfl

/-- **Members are gathered up to the first that fails**, if one does. -/
theorem gather_stops (maker : Maker) (layers : Layers) (g : Gathered)
    (members : List (String × Member)) :
    ∃ processed placements last, Gathers maker layers g processed placements last ∧
      ((members = processed ∧ gather maker layers g members = (last.claims, .ok last)) ∨
        ∃ name member d e rest, members = processed ++ (name, member) :: rest ∧
          member.component.document? = some d ∧ Fails maker layers name member d last e ∧
          gather maker layers g members = (last.claims, .error e)) := by
  induction members generalizing g with
  | nil => exact ⟨[], [], g, .done, .inl ⟨rfl, rfl⟩⟩
  | cons entry members ih =>
    obtain ⟨name, member⟩ := entry
    rw [gather]
    cases hdocument : member.component.document? with
    | none =>
      obtain ⟨processed, placements, last, hrun, hend⟩ := ih g
      refine ⟨(name, member) :: processed, placements, last, .fragment hdocument hrun, ?_⟩
      rcases hend with ⟨rfl, hgather⟩ | ⟨n, m, d, e, rest, rfl, hstop⟩
      · exact .inl ⟨rfl, hgather⟩
      · exact .inr ⟨n, m, d, e, rest, rfl, hstop⟩
    | some d =>
      dsimp only
      cases hgathered : gatherDocument maker layers g name member d with
      | error e =>
        exact ⟨[], [], g, .done, .inr ⟨name, member, d, e, members, rfl, hdocument,
          gatherDocument_eq_error_iff.1 hgathered, rfl⟩⟩
      | ok next =>
        obtain ⟨merge, hmerge, placement, hcontributes⟩ := gatherDocument_eq_ok_iff.1 hgathered
        obtain ⟨processed, placements, last, hrun, hend⟩ := ih next
        refine ⟨(name, member) :: processed, placement.toList ++ placements, last,
          .document hdocument hmerge hcontributes hrun, ?_⟩
        rcases hend with ⟨rfl, hgather⟩ | ⟨n, m, d, e, rest, rfl, hstop⟩
        · exact .inl ⟨rfl, hgather⟩
        · exact .inr ⟨n, m, d, e, rest, rfl, hstop⟩

/-! ## Which claims are made -/

/-- What the documents among members give, in order. -/
def ofDocuments (pick? : String → Member → Document → Option α)
    (members : List (String × Member)) : List α :=
  members.filterMap fun entry => entry.2.component.document?.bind (pick? entry.1 entry.2)

theorem ofDocuments_fragment {pick? : String → Member → Document → Option α}
    (h : member.component.document? = none) :
    ofDocuments pick? ((name, member) :: rest) = ofDocuments pick? rest := by
  rw [ofDocuments, List.filterMap_cons, h]
  rfl

theorem ofDocuments_document {pick? : String → Member → Document → Option α}
    (h : member.component.document? = some d) :
    ofDocuments pick? ((name, member) :: rest) =
      (pick? name member d).toList ++ ofDocuments pick? rest := by
  rw [ofDocuments, List.filterMap_cons, h]
  dsimp only [Option.bind_some]
  cases pick? name member d <;> rfl

/-- The claim that the section of a document makes: on its window if it has one, unless
it is data and blank. -/
def claimMade? (name : String) (d : Document) : Option Claim :=
  if d.isSchema || !Text.isBlankText d.data.raw.toList then
    d.window?.map fun window => claimOf name window d (d.mergeWord?.bind Json.Merge.ofName?)
  else none

/-- The claims that the sections of members make, in order. -/
def claimsMade (members : List (String × Member)) : Claims :=
  ofDocuments (fun name _ d => claimMade? name d) members

theorem eq_of_declaredMerge (h : declaredMerge name d = .ok merge) :
    merge = d.mergeWord?.bind Json.Merge.ofName? := by
  unfold declaredMerge at h
  split at h
  · next hnone =>
    rw [hnone]
    exact (Except.ok.inj h).symm
  · next word hword =>
    split at h
    · next found hfound =>
      rw [hword, Option.bind_some, hfound]
      exact (Except.ok.inj h).symm
    · cases h

/-- A schema with a window, or data that are not blank, make a claim. -/
theorem claimMade?_of_named (hmerge : declaredMerge name d = .ok merge)
    (hmet : d.isSchema = true ∨ Text.isBlankText d.data.raw.toList = false)
    (hnamed : d.window? = some window) :
    claimMade? name d = some (claimOf name window d merge) := by
  rw [claimMade?, if_pos (by simpa using hmet), hnamed, ← eq_of_declaredMerge hmerge]
  rfl

/-- Without a window no claim is made. -/
theorem claimMade?_of_unnamed (hunnamed : d.window? = none) : claimMade? name d = none := by
  rw [claimMade?, hunnamed]
  split <;> rfl

/-- Blank data make no claim. -/
theorem claimMade?_of_blank (hdata : d.isSchema = false)
    (hblank : Text.isBlankText d.data.raw.toList = true) : claimMade? name d = none := by
  rw [claimMade?, if_neg (by simp [hdata, hblank])]

/-- **The claim that is made is entered**, behind the others. -/
theorem Contributes.claims_append (hmerge : declaredMerge name d = .ok merge)
    (h : Contributes maker layers name member d merge g placement next) :
    next.claims = g.claims ++ (claimMade? name d).toList := by
  have hentered {window : String} {claims : Claims} (hnamed : d.window? = some window)
      (hmet : d.isSchema = true ∨ Text.isBlankText d.data.raw.toList = false)
      (hregisters : g.claims.register (claimOf name window d merge) = .ok claims) :
      claims = g.claims ++ (claimMade? name d).toList := by
    obtain ⟨-, -, -, rfl⟩ := Claims.register_eq_ok_iff.1 hregisters
    rw [claimMade?_of_named hmerge hmet hnamed]
    rfl
  cases h with
  | unnamedSchema _ hunnamed =>
    rw [claimMade?_of_unnamed hunnamed]
    exact (List.append_nil _).symm
  | emptySchema hschema hnamed hregisters => exact hentered hnamed (.inl hschema) hregisters
  | schema hschema hnamed hregisters => exact hentered hnamed (.inl hschema) hregisters
  | blank hdata hblank =>
    rw [claimMade?_of_blank hdata hblank]
    exact (List.append_nil _).symm
  | named _ hfilled hnamed _ hregisters => exact hentered hnamed (.inr hfilled) hregisters
  | unnamed _ _ hunnamed =>
    rw [claimMade?_of_unnamed hunnamed]
    exact (List.append_nil _).symm

/-- **The claims behind members that contribute.** -/
theorem Gathers.claims_append (h : Gathers maker layers g processed placements last) :
    last.claims = g.claims ++ claimsMade processed := by
  induction h with
  | done => exact (List.append_nil _).symm
  | fragment hfragment _ ih =>
    rw [ih, claimsMade, claimsMade, ofDocuments_fragment hfragment]
  | document hdocument hmerge hcontributes _ ih =>
    rw [ih, hcontributes.claims_append hmerge, claimsMade, claimsMade,
      ofDocuments_document hdocument, List.append_assoc]

/-! ## Steps on a workspace -/

namespace Work

variable {x : Work α} {f : α → Work β} {a : α}

/-- **One computation behind another** goes on from what the first one answers, and is
not begun behind a failure. -/
theorem on_bind (x : Work α) (f : α → Work β) (w : Workspace) :
    (x >>= f).on w =
      match x.on w with
      | (.ok a, w') => (f a).on w'
      | (.error e, w') => (.error e, w') := by
  unfold on ExceptT.run StateT.run Id.run
  simp only [bind, ExceptT.bind, ExceptT.mk, StateT.bind, ExceptT.bindCont]
  cases x w with
  | mk answer w' => cases answer <;> rfl

theorem on_bind_of_ok (h : x.on w = (.ok a, w')) : (x >>= f).on w = (f a).on w' := by
  rw [on_bind, h]

theorem on_bind_of_error (h : x.on w = (.error e, w')) : (x >>= f).on w = (.error e, w') := by
  rw [on_bind, h]

theorem on_enter (claim : Claim) (w : Workspace) :
    (enter claim).on w =
      ((w.registry.register claim).1, { w with registry := (w.registry.register claim).2 }) :=
  rfl

/-- A claim that is accepted is entered, and nothing else changes. -/
theorem on_enter_of_ok (h : w.registry.Consistent)
    (hregisters : w.registry.claims.register claim = .ok claims) :
    ∃ w', (enter claim).on w = (.ok (), w') ∧ w'.gathered = { w.gathered with claims } ∧
      w'.registry = w.registry.after [.register claim] ∧ w'.registry.Consistent := by
  obtain ⟨next, hnext, hclaims, hconsistent⟩ := h.register_of_ok hregisters
  refine ⟨{ w with registry := next }, ?_, ?_, ?_, hconsistent⟩
  · rw [on_enter, hnext]
  · rw [← hclaims]
    rfl
  · rw [Registry.after, List.foldl_cons, List.foldl_nil, Registry.call, hnext]

/-- A claim that is refused changes nothing. -/
theorem on_enter_of_refused (h : w.registry.Consistent)
    (hrefused : Claims.Refused w.registry.claims claim e) : (enter claim).on w = (.error e, w) := by
  rw [on_enter, h.register_of_error hrefused]

/-- What knows of no workspace leaves it as it is. -/
theorem on_lift {outcome answer : Except Failure α} (h : outcome = answer) (w : Workspace) :
    (liftM outcome : Work α).on w = (answer, w) := by
  rw [h]
  rfl

theorem on_get (w : Workspace) : (get : Work Workspace).on w = (.ok w, w) :=
  rfl

/-- Placing a value leaves the registry as it is. -/
theorem on_place (window : String) (value : Json.Value) (merge : Option Json.Merge)
    (w : Workspace) :
    ∃ w', (place window value merge).on w = (.ok (), w') ∧
      w'.gathered = w.gathered.place window value merge ∧ w'.registry = w.registry :=
  ⟨_, rfl, rfl, rfl⟩

end Work

/-- **What a document contributes** is gathered into the workspace. The claim that its
section makes is entered, and no other. -/
theorem aggregate_of_contributes (hw : w.registry.Consistent)
    (hmerge : declaredMerge name d = .ok merge)
    (h : Contributes maker layers name member d merge w.gathered placement next) :
    ∃ w', (aggregate maker layers name member d).on w = (.ok (), w') ∧ w'.gathered = next ∧
      w'.registry = w.registry.after ((claimMade? name d).toList.map .register) ∧
      w'.registry.Consistent := by
  unfold aggregate
  rw [Work.on_bind_of_ok (Work.on_lift hmerge w)]
  cases h with
  | unnamedSchema hschema hunnamed =>
    rw [if_pos hschema, hunnamed, claimMade?_of_unnamed hunnamed]
    exact ⟨w, rfl, rfl, rfl, hw⟩
  | emptySchema hschema hnamed hregisters hmissing =>
    obtain ⟨entered, henter, hgathered, hregistry, hconsistent⟩ := Work.on_enter_of_ok hw hregisters
    have hserver : entered.server = w.gathered.server := congrArg Gathered.server hgathered
    rw [if_pos hschema, hnamed, claimMade?_of_named hmerge (.inl hschema) hnamed]
    refine ⟨entered, ?_, hgathered, hregistry, hconsistent⟩
    dsimp only
    rw [Work.on_bind_of_ok henter, Work.on_bind_of_ok (Work.on_get entered), hserver, hmissing]
    rfl
  | schema hschema hnamed hregisters hfound =>
    obtain ⟨entered, henter, hgathered, hregistry, hconsistent⟩ := Work.on_enter_of_ok hw hregisters
    have hserver : entered.server = w.gathered.server := congrArg Gathered.server hgathered
    obtain ⟨w', hplace, hplaced, hsame⟩ := Work.on_place _ _ merge entered
    rw [if_pos hschema, hnamed, claimMade?_of_named hmerge (.inl hschema) hnamed]
    refine ⟨w', ?_, ?_, hsame.trans hregistry, hsame ▸ hconsistent⟩
    · dsimp only
      rw [Work.on_bind_of_ok henter, Work.on_bind_of_ok (Work.on_get entered), hserver, hfound]
      exact hplace
    · rw [hplaced, hgathered]
  | blank hdata hblank =>
    rw [if_neg (Bool.eq_false_iff.1 hdata), if_pos hblank, claimMade?_of_blank hdata hblank]
    exact ⟨w, rfl, rfl, rfl, hw⟩
  | named hdata hfilled hnamed hevaluates hregisters =>
    obtain ⟨entered, henter, hgathered, hregistry, hconsistent⟩ := Work.on_enter_of_ok hw hregisters
    obtain ⟨w', hplace, hplaced, hsame⟩ := Work.on_place _ _ merge entered
    rw [if_neg (Bool.eq_false_iff.1 hdata), if_neg (Bool.eq_false_iff.1 hfilled),
      Work.on_bind_of_ok (Work.on_get w), claimMade?_of_named hmerge (.inr hfilled) hnamed]
    refine ⟨w', ?_, ?_, hsame.trans hregistry, hsame ▸ hconsistent⟩
    · rw [Work.on_bind_of_ok (Work.on_lift hevaluates w), hnamed]
      dsimp only
      rw [Work.on_bind_of_ok henter]
      exact hplace
    · rw [hplaced, hgathered]
  | unnamed hdata hfilled hunnamed hevaluates =>
    rw [if_neg (Bool.eq_false_iff.1 hdata), if_neg (Bool.eq_false_iff.1 hfilled),
      Work.on_bind_of_ok (Work.on_get w), claimMade?_of_unnamed hunnamed,
      Work.on_bind_of_ok (Work.on_lift hevaluates w), hunnamed]
    exact ⟨_, rfl, rfl, rfl, hw⟩

/-- **What fails** leaves the workspace as it was. -/
theorem aggregate_of_fails (hw : w.registry.Consistent)
    (h : Fails maker layers name member d w.gathered e) :
    (aggregate maker layers name member d).on w = (.error e, w) := by
  unfold aggregate
  cases h with
  | unknownMerge hdeclared hunknown =>
    have hfails : declaredMerge name d = .error _ :=
      declaredMerge_eq_error_iff.2 ⟨_, hdeclared, hunknown, rfl⟩
    exact Work.on_bind_of_error (Work.on_lift hfails w)
  | schema hmerge hschema hnamed hrefused =>
    rw [Work.on_bind_of_ok (Work.on_lift hmerge w), if_pos hschema, hnamed]
    exact Work.on_bind_of_error (Work.on_enter_of_refused hw hrefused)
  | unevaluated hmerge hdata hfilled hfails =>
    rw [Work.on_bind_of_ok (Work.on_lift hmerge w), if_neg (Bool.eq_false_iff.1 hdata),
      if_neg (Bool.eq_false_iff.1 hfilled), Work.on_bind_of_ok (Work.on_get w)]
    exact Work.on_bind_of_error (Work.on_lift hfails w)
  | named hmerge hdata hfilled hevaluates hnamed hrefused =>
    rw [Work.on_bind_of_ok (Work.on_lift hmerge w), if_neg (Bool.eq_false_iff.1 hdata),
      if_neg (Bool.eq_false_iff.1 hfilled), Work.on_bind_of_ok (Work.on_get w),
      Work.on_bind_of_ok (Work.on_lift hevaluates w), hnamed]
    exact Work.on_bind_of_error (Work.on_enter_of_refused hw hrefused)
  | @unnamed merge value hmerge hdata hfilled hevaluates hunnamed hshapeless =>
    rw [Work.on_bind_of_ok (Work.on_lift hmerge w), if_neg (Bool.eq_false_iff.1 hdata),
      if_neg (Bool.eq_false_iff.1 hfilled), Work.on_bind_of_ok (Work.on_get w),
      Work.on_bind_of_ok (Work.on_lift hevaluates w), hunnamed]
    cases value with
    | object fields => exact absurd rfl (hshapeless fields)
    | _ => rfl

/-! ## Runs on a workspace -/

/-- **Members that contribute** are gathered into the workspace, before any that come
behind them. The claims that their sections make are entered, and no others. -/
theorem aggregateAll_of_gathers (h : Gathers maker layers g processed placements last)
    (hg : w.gathered = g) (hw : w.registry.Consistent) (rest : List (String × Member)) :
    ∃ w', (aggregateAll maker layers (processed ++ rest)).on w =
        (aggregateAll maker layers rest).on w' ∧
      w'.gathered = last ∧ w'.registry = w.registry.after ((claimsMade processed).map .register) ∧
      w'.registry.Consistent := by
  induction h generalizing w with
  | done => exact ⟨w, rfl, hg, rfl, hw⟩
  | fragment hfragment _ ih =>
    obtain ⟨w', hrun, hlast, hregistry, hconsistent⟩ := ih hg hw
    refine ⟨w', ?_, hlast, ?_, hconsistent⟩
    · rw [List.cons_append, aggregateAll, hfragment]
      exact hrun
    · rw [claimsMade, ofDocuments_fragment hfragment]
      exact hregistry
  | @document g next last name member d _ _ _ _ hdocument hmerge hcontributes _ ih =>
    obtain rfl := hg
    obtain ⟨reached, hstep, hnext, hentered, hreached⟩ :=
      aggregate_of_contributes hw hmerge hcontributes
    obtain ⟨w', hrun, hlast, hregistry, hconsistent⟩ := ih hnext hreached
    refine ⟨w', ?_, hlast, ?_, hconsistent⟩
    · rw [List.cons_append, aggregateAll, hdocument]
      dsimp only
      rw [Work.on_bind_of_ok hstep]
      exact hrun
    · rw [hregistry, hentered, claimsMade, claimsMade, ofDocuments_document hdocument,
        List.map_append, Registry.after_append]

/-- **What a page leaves behind**, with the members that were processed for it and the
data gathered of them. -/
structure Entered (maker : Maker) (graph : Graph) (layers : Layers) (nonce : Option String)
    (before : Registry) (processed : List (String × Member)) (g : Gathered)
    (outcome : Except Failure Rendered × Registry) : Prop where
  /-- The processed members all contributed. -/
  gathers : ∃ placements,
    Gathers maker layers (beginning layers before.claims) processed placements g
  /-- The claims are those from before, and then one for each section that makes one, in
  order. -/
  claims_eq : outcome.2.claims = before.claims ++ claimsMade processed
  /-- The registry is as if they had been registered one by one. -/
  registry_eq : outcome.2 = before.after ((claimsMade processed).map .register)
  /-- All members were processed, and it is for the page to succeed or fail. Or the first
  one that was not failed. -/
  ended : (graph.members = processed ∧ outcome.1 = finish maker graph layers nonce g) ∨
    ∃ name member d e rest, graph.members = processed ++ (name, member) :: rest ∧
      member.component.document? = some d ∧ Fails maker layers name member d g e ∧
      outcome.1 = .error e

theorem render_of_gather {after : Claims} {outcome : Except Failure Gathered}
    (h : gather maker layers (beginning layers claims) graph.members = (after, outcome)) :
    render maker graph layers claims nonce =
      (after, outcome.bind fun g => finish maker graph layers nonce g) := by
  rw [beginning] at h
  unfold render
  dsimp only
  rw [h]
  cases outcome <;> rfl

theorem renderInto_of_run {answer : Except Failure Unit}
    (h : (aggregateAll maker layers graph.members).on (.start layers before) = (answer, w)) :
    renderInto maker graph layers before nonce =
      (answer.bind fun _ => finish maker graph layers nonce w.gathered, w.registry) := by
  unfold renderInto
  rw [h]
  cases answer <;> rfl

/-- **Making a page enters a claim for each section met**, in whatever registry it begins
with and however it ends: the sections are those of the members before the first that
fails. Whoever looks at the claims alone sees the same. -/
theorem entered_renderInto (maker : Maker) (graph : Graph) (layers : Layers)
    (nonce : Option String) (calls : List Registry.Call) :
    (∃ processed g, Entered maker graph layers nonce (.after .empty calls) processed g
        (renderInto maker graph layers (.after .empty calls) nonce)) ∧
      render maker graph layers (Registry.after .empty calls).claims nonce =
        ((renderInto maker graph layers (.after .empty calls) nonce).2.claims,
          (renderInto maker graph layers (.after .empty calls) nonce).1) := by
  obtain ⟨hconsistent, -⟩ := Registry.consistent_after calls
  generalize Registry.after .empty calls = before at hconsistent ⊢
  obtain ⟨processed, placements, last, hgathers, hend⟩ :=
    gather_stops maker layers (beginning layers before.claims) graph.members
  have hclaims := hgathers.claims_append
  have hprocessed :=
    aggregateAll_of_gathers (w := .start layers before) hgathers rfl hconsistent
  rcases hend with ⟨hall, hgather⟩ | ⟨name, member, d, e, rest, hstop, hdocument, hfails, hgather⟩
  · obtain ⟨w, hrun, rfl, hregistry, -⟩ := hprocessed []
    rw [List.append_nil, ← hall] at hrun
    rw [renderInto_of_run hrun, render_of_gather hgather]
    exact ⟨⟨processed, w.gathered, ⟨placements, hgathers⟩, hclaims, hregistry,
      .inl ⟨hall, rfl⟩⟩, rfl⟩
  · obtain ⟨w, hrun, rfl, hregistry, hconsistent⟩ := hprocessed ((name, member) :: rest)
    have hstops : (aggregateAll maker layers ((name, member) :: rest)).on w = (.error e, w) := by
      rw [aggregateAll, hdocument]
      exact Work.on_bind_of_error (aggregate_of_fails hconsistent hfails)
    rw [hstops, ← hstop] at hrun
    rw [renderInto_of_run hrun, render_of_gather hgather]
    exact ⟨⟨processed, w.gathered, ⟨placements, hgathers⟩, hclaims, hregistry,
      .inr ⟨name, member, d, e, rest, hstop, hdocument, hfails, rfl⟩⟩, rfl⟩

end View

end Trellis
