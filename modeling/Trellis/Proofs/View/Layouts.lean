import Trellis.Proofs.Graph.Order
import Trellis.Proofs.Render.Depth
import Trellis.View
/-!
# View — the layouts around a page

From the root of a graph one layout leads to the next, each standing further to
the front of the order, until a member has none (`enclosing_of_resolve`). All
of them are members, so making a page never fails for want of one
(`supplied_render`). With the order itself: `order_of_resolve`.
-/

namespace Trellis

namespace Graph

variable {library : Library} {g : Graph} {root name layout first last : String}
  {chain : List String} {steps : Nat}

/-! ## One layout leading to the next -/

/-- Names each of which has the next one as its layout. -/
def Follows (g : Graph) (chain : List String) : Prop :=
  chain.IsChain fun name layout => g.layoutOf? name = some layout

/-- A layout is a member, and stands before what it is the layout of. -/
theorem layoutOf?_before (hsettled : Settled library g.members)
    (h : g.layoutOf? name = some layout) :
    layout ∈ g.order ∧ g.order.idxOf layout < g.order.idxOf name := by
  obtain ⟨member, hmember, hlayout⟩ := Option.bind_eq_some_iff.1 h
  have hmem := Keyed.mem_of_get? hmember
  have hreferred := mem_references_of_layout? (hsettled.load hmem) hlayout
  exact ⟨hsettled.closed hmem hreferred, hsettled.idxOf_lt hmem hreferred⟩

/-- **Layouts never lead back.** -/
theorem Follows.nodup (hsettled : Settled library g.members) (h : Follows g chain) :
    chain.Nodup := by
  have hdown : (chain.map fun name => g.order.idxOf name).IsChain (· > ·) := by
    rw [List.isChain_map]
    exact List.IsChain.imp (fun _ _ hlayout => (layoutOf?_before hsettled hlayout).2) h
  have hnodup : (chain.map fun name => g.order.idxOf name).Nodup :=
    (List.isChain_iff_pairwise.1 hdown).imp Nat.ne_of_gt
  exact hnodup.of_map

theorem Follows.concat (h : Follows g (first :: chain))
    (hlast : (first :: chain).getLast? = some last) (hlayout : g.layoutOf? last = some layout) :
    Follows g (first :: (chain ++ [layout])) := by
  have hjoint : ∀ x ∈ (first :: chain).getLast?, ∀ y ∈ [layout].head?, g.layoutOf? x = some y := by
    intro x hx y hy
    obtain rfl : last = x := Option.some.inj (hlast.symm.trans hx)
    obtain rfl : layout = y := Option.some.inj hy
    exact hlayout
  exact List.IsChain.append h (List.isChain_singleton layout) hjoint

/-- That names end with one that has no layout. -/
def Ends (g : Graph) (chain : List String) : Prop :=
  ∃ last, chain.getLast? = some last ∧ g.layoutOf? last = none

/-- **Following layouts ends at a name without one.** It takes no more steps than
names stand before the one that it goes on from. -/
theorem follows_layoutsFrom (hsettled : Settled library g.members)
    (hfollows : Follows g (first :: chain)) (hlast : (first :: chain).getLast? = some last)
    (hsteps : g.order.idxOf last < steps) :
    Follows g (first :: g.layoutsFrom steps chain (g.layoutOf? last)) ∧
      Ends g (first :: g.layoutsFrom steps chain (g.layoutOf? last)) := by
  induction steps generalizing chain last with
  | zero => exact absurd hsteps (Nat.not_lt_zero _)
  | succ steps ih =>
    cases hlayout : g.layoutOf? last with
    | none => exact ⟨hfollows, last, hlast, hlayout⟩
    | some layout =>
      -- the layout is new, or the chain with it would name it twice
      have hlonger := hfollows.concat hlast hlayout
      have hnodup := (List.nodup_cons.1 (hlonger.nodup hsettled)).2
      have hfresh : layout ∉ chain := fun hmem =>
        List.disjoint_of_nodup_append hnodup hmem List.mem_cons_self
      have hbefore := (layoutOf?_before hsettled hlayout).2
      rw [layoutsFrom, if_neg (by simpa using hfresh)]
      refine ih hlonger ?_ (by omega)
      rw [← List.cons_append]
      exact List.getLast?_concat

/-- Layouts around the root of a graph, the innermost first. -/
structure Enclosing (g : Graph) (layouts : List String) : Prop where
  /-- Each name has the next one as its layout, the root the first. -/
  follows : Follows g (g.root :: layouts)
  /-- The outermost has none. -/
  outermost : ∃ last member, (g.root :: layouts).getLast? = some last ∧
    g.member? last = some member ∧ member.component.layout? = none
  /-- No name stands twice. -/
  once : (g.root :: layouts).Nodup
  /-- All are members. -/
  present : ∀ name ∈ g.root :: layouts, ∃ member, g.member? name = some member

/-- **The layouts of a graph enclose its root.** -/
theorem enclosing_of_resolve (h : resolve library root = .ok g) : Enclosing g g.layoutChain := by
  have hsettled := settled_of_resolve h
  have hlength : g.order.length = g.members.length := List.length_map Prod.fst
  have hposition : g.order.idxOf g.root ≤ g.order.length := List.idxOf_le_length
  have hsteps : g.order.idxOf g.root < g.members.length + 1 := by omega
  have hstart : [g.root].getLast? = some g.root := rfl
  obtain ⟨hfollows, last, hlast, hnone⟩ :=
    follows_layoutsFrom hsettled (List.isChain_singleton g.root) hstart hsteps
  have hpresent : ∀ name ∈ g.root :: g.layoutChain, ∃ member, g.member? name = some member := by
    intro name hname
    rcases List.mem_cons.1 hname with rfl | hname
    · exact exists_member?_root h
    · obtain ⟨inner, hlayout⟩ := exists_rel_of_mem hfollows hname
      exact mem_order_iff_member?.1 (layoutOf?_before hsettled hlayout).1
  obtain ⟨member, hmember⟩ := hpresent last (List.mem_of_getLast? hlast)
  refine ⟨hfollows, ⟨last, member, hlast, hmember, ?_⟩, hfollows.nodup hsettled, hpresent⟩
  rw [layoutOf?, hmember] at hnone
  exact hnone

end Graph

/-! ## Making a page -/

namespace View

variable {α β : Type} {maker : Maker} {graph : Graph} {layers : Layers} {e : Failure}

/-- That a failure is for want of a member. -/
def Wanting : Failure → Prop
  | .unresolvedRoot _ | .unresolvedLayout _ => True
  | _ => False

/-- That a computation does not fail for want of a member. -/
def Supplied (x : Except Failure α) : Prop :=
  ∀ e, x = .error e → ¬ Wanting e

theorem Supplied.ok (a : α) : Supplied (.ok a) := by
  intro e h
  cases h

theorem Supplied.error (h : ¬ Wanting e) : Supplied (.error e : Except Failure α) := by
  intro e' he'
  rw [← Except.error.inj he']
  exact h

theorem Supplied.bind {x : Except Failure α} {f : α → Except Failure β} (hx : Supplied x)
    (hf : ∀ a, Supplied (f a)) : Supplied (x >>= f) := by
  intro e h
  rcases Except.bind_eq_error_iff.1 h with hfirst | ⟨a, -, hsecond⟩
  · exact hx e hfirst
  · exact hf a e hsecond

theorem Supplied.mapError {ε : Type} {x : Except ε α} {f : ε → Failure}
    (hf : ∀ cause, ¬ Wanting (f cause)) : Supplied (x.mapError f) := by
  intro e h
  obtain ⟨cause, -, rfl⟩ := Except.mapError_eq_error_iff.1 h
  exact hf cause

/-- Showing a tree looks for no members. -/
theorem supplied_tree (manner : Render.Manner) (partials : Render.Partials)
    (nodes : List Markup.Node) (scope : Lookup) :
    Supplied (Render.tree manner partials nodes scope) := by
  intro e h
  obtain ⟨cause, hcause, rfl⟩ := Except.mapError_eq_error_iff.1 h
  rcases Render.failure_of_showWithin hcause with
    ⟨name, location, rfl⟩ | ⟨name, location, rfl⟩ | ⟨name, served, e, -, rfl⟩ <;> exact id

theorem supplied_declaredMerge (name : String) (d : Document) :
    Supplied (declaredMerge name d) := by
  unfold declaredMerge
  split
  · exact .ok _
  · split
    · exact .ok _
    · exact .error id

theorem supplied_register (claims : Hydration.Claims) (claim : Hydration.Claim) :
    Supplied (claims.register claim) := by
  unfold Hydration.Claims.register
  split
  · exact .error id
  · split
    · exact .error id
    · split
      · exact .error id
      · exact .ok _

theorem supplied_evaluate (maker : Maker) (layers : Layers) (name : String) (member : Member)
    (d : Document) : Supplied (evaluate maker layers name member d) := by
  refine Supplied.bind (.mapError fun _ => id) fun nodes => ?_
  exact (supplied_tree _ _ _ _).bind fun text => .mapError fun _ => id

theorem supplied_gatherDocument (maker : Maker) (layers : Layers) (g : Gathered) (name : String)
    (member : Member) (d : Document) : Supplied (gatherDocument maker layers g name member d) := by
  refine (supplied_declaredMerge name d).bind fun merge => ?_
  split
  · split
    · exact .ok _
    · refine (supplied_register _ _).bind fun claims => ?_
      dsimp only
      split <;> exact .ok _
  · split
    · exact .ok _
    · refine (supplied_evaluate maker _ name member d).bind fun value => ?_
      split
      · exact (supplied_register _ _).bind fun claims => .ok _
      · exact .ok _
      · exact .error id

/-- Gathering data looks for no members. -/
theorem supplied_gather (maker : Maker) (layers : Layers) (g : Gathered)
    (members : List (String × Member)) : Supplied (gather maker layers g members).2 := by
  induction members generalizing g with
  | nil => exact .ok _
  | cons entry members ih =>
    obtain ⟨name, member⟩ := entry
    rw [gather]
    split
    · exact ih g
    · next d _ =>
      have hdocument := supplied_gatherDocument maker layers g name member d
      split
      · next g _ => exact ih g
      · next e herror => exact .error (hdocument e herror)

/-- Layouts that are members are found. -/
theorem supplied_withLayouts {layouts : List String}
    (hpresent : ∀ layout ∈ layouts, ∃ member, graph.member? layout = some member)
    (html : List Char) : Supplied (withLayouts maker graph layers layouts html) := by
  induction layouts generalizing html with
  | nil => exact .ok html
  | cons layout layouts ih =>
    obtain ⟨⟨member, hmember⟩, hmore⟩ := List.forall_mem_cons.1 hpresent
    rw [withLayouts, hmember]
    exact (supplied_tree _ _ _ _).bind fun html => ih hmore html

/-- **Making a page of a graph never fails for want of a member.** -/
theorem supplied_render (henclosing : graph.Enclosing graph.layoutChain) (maker : Maker)
    (layers : Layers) (claims : Hydration.Claims) (nonce : Option String) :
    Supplied (render maker graph layers claims nonce).2 := by
  obtain ⟨⟨root, hroot⟩, hpresent⟩ := List.forall_mem_cons.1 henclosing.present
  have hgather := supplied_gather maker layers
    { server := layers.server, client := layers.client, claims } graph.members
  unfold render
  dsimp only
  split
  · next claims e hfailed =>
    rw [hfailed] at hgather
    exact .error (hgather e rfl)
  · rw [finish, hroot]
    refine (supplied_tree _ _ _ _).bind fun html => ?_
    exact (supplied_withLayouts hpresent html).bind fun html => .ok _

end View

namespace Graph

/-- **A graph lists its members in an order for gathering, and its layouts lead
outwards.** The order is that of a walk in depth from the root: each member
once, behind all that it refers to, the root last. The layouts lead from the
root to a member without one, by members alone and without a repetition. So no
page fails because the root or a layout is not there. -/
theorem order_of_resolve {library : Library} {g : Graph} {root : String}
    (h : resolve library root = .ok g) :
    (∀ listed, (∃ met, Visits g.referencesFrom [g.root] ⟨[], []⟩ ⟨met, listed⟩) ↔
        listed = g.order) ∧
      Ordered g g.order ∧ Enclosing g g.layoutChain ∧
      ∀ maker layers claims nonce name,
        (View.render maker g layers claims nonce).2 ≠ .error (.unresolvedRoot name) ∧
          (View.render maker g layers claims nonce).2 ≠ .error (.unresolvedLayout name) := by
  have henclosing := enclosing_of_resolve h
  refine ⟨fun listed => visits_iff h, ordered_of_resolve h, henclosing, ?_⟩
  intro maker layers claims nonce name
  have hsupplied := View.supplied_render henclosing maker layers claims nonce
  exact ⟨fun hroot => hsupplied _ hroot trivial, fun hlayout => hsupplied _ hlayout trivial⟩

/-- A page inside of a frame that shares a partial with it. -/
theorem order_of_resolve_gallery :
    ∃ g, resolve gallery.library "page" = .ok g ∧ g.order = ["icon", "card", "frame", "page"] ∧
      (∀ listed, (∃ met, Visits g.referencesFrom [g.root] ⟨[], []⟩ ⟨met, listed⟩) ↔
          listed = g.order) ∧
        Ordered g g.order ∧ Enclosing g g.layoutChain ∧
        ∀ maker layers claims nonce name,
          (View.render maker g layers claims nonce).2 ≠ .error (.unresolvedRoot name) ∧
            (View.render maker g layers claims nonce).2 ≠ .error (.unresolvedLayout name) := by
  obtain ⟨g, hg, horder⟩ := exists_graph_gallery
  exact ⟨g, hg, horder, order_of_resolve hg⟩

end Graph

end Trellis
