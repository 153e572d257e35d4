import Trellis.Proofs.Graph.Order
import Trellis.Proofs.Render.Inlining
import Trellis.Site
/-!
# Graph — what its members show

The partials of a member are members that stand before it, so they never lie
deeper inside one another than the order is long. With all of them put in, a
member shows what it shows with them embedded (`tree_eq_inlined`). It shows the
same when its partials are read anew from their sources (`tree_eq_source`).
-/

namespace Trellis

namespace Graph

open Markup (Node Inlines)
open Render (Manner showWithin)

variable {library : Library} {g : Graph} {root name source : String} {component : Component}
  {member : Member} {manner : Manner} {scope : Lookup} {e : Failure} {depth : Nat}

/-! ## The trees of members -/

/-- The tree of a name's component. -/
def treeOf? (g : Graph) (name : String) : Option (List Node) :=
  (g.member? name).map fun member => member.component.nodes

theorem treeOf?_eq_some (hmember : g.member? name = some member) :
    g.treeOf? name = some member.component.nodes := by
  rw [treeOf?, hmember]
  rfl

/-- As partials the members come to their trees. -/
theorem treeOf?_partials (g : Graph) : Render.treeOf? g.partials = g.treeOf? := by
  funext name
  rw [Render.treeOf?, partials, treeOf?]
  cases g.member? name <;> rfl

/-- A source shows the tree of its component. -/
theorem shownTree_eq (h : Component.ofSource source = .ok component) :
    shownTree source = .ok component.nodes := by
  unfold Component.ofSource at h
  unfold shownTree
  split at h
  · next hdocument =>
    obtain ⟨d, hparse, rfl⟩ := Except.map_eq_ok_iff.1 h
    rw [if_pos hdocument]
    exact Except.map_eq_ok_iff.2 ⟨d, hparse, rfl⟩
  · next hfragment =>
    obtain ⟨nodes, hparse, rfl⟩ := Except.map_eq_ok_iff.1 h
    rw [if_neg hfragment]
    exact hparse

/-- Read anew from the library, a partial comes to the tree of its member. -/
theorem treeOf?_partialsOf (hload : Member.load library name = .ok member) :
    Render.treeOf? (Site.partialsOf library) name = some member.component.nodes := by
  obtain ⟨hfetch, hcomponent, -⟩ := load_eq_ok_iff.1 hload
  have hserved : Site.partialsOf library name = some (.source member.source) := by
    simp only [Site.partialsOf, hfetch]
  rw [Render.treeOf?, hserved, Option.bind_some, Render.Served.tree?, shownTree_eq hcomponent]
  rfl

/-- A member includes only members. -/
theorem included_subset_order (hsettled : Settled library g.members)
    (hmember : g.member? name = some member) :
    Node.included member.component.nodes ⊆ g.order := by
  intro other hother
  have hload := load_of_member? hsettled hmember
  exact hsettled.closed (Keyed.mem_of_get? hmember) (included_subset_references hload hother)

theorem closed_partials (hsettled : Settled library g.members) :
    Render.Closed g.partials g.order := by
  intro name hname
  obtain ⟨member, hmember⟩ := mem_order_iff_member?.1 hname
  refine ⟨member.component.nodes, ?_, included_subset_order hsettled hmember⟩
  rw [treeOf?_partials]
  exact treeOf?_eq_some hmember

/-! ## Partials put in -/

/-- The partials of a member can be put into it. -/
theorem exists_inlines_of_mem (hsettled : Settled library g.members)
    (hmem : (name, member) ∈ g.members) :
    ∃ whole, Inlines g.treeOf? member.component.nodes whole := by
  refine hsettled.induct (P := fun _ member => ∃ whole,
    Inlines g.treeOf? member.component.nodes whole) (fun name member hmem ih => ?_) hmem
  refine Markup.exists_inlines _ fun other hother => ?_
  have hreferred := included_subset_references (hsettled.load hmem) hother
  obtain ⟨target, htarget, whole, hwhole⟩ := ih other hreferred
  have htree := treeOf?_eq_some ((member?_eq_some_iff hsettled).2 htarget)
  exact ⟨target.component.nodes, whole, htree, hwhole⟩

/-- **A depth of as many partials as stand before a member is enough for it.** -/
theorem exists_showWithin_eq_ok (hsettled : Settled library g.members)
    (hmem : (name, member) ∈ g.members) (hdepth : g.order.idxOf name ≤ depth) (manner : Manner)
    (scope : Lookup) :
    ∃ text, showWithin manner g.partials depth member.component.nodes scope = .ok text := by
  -- the induction is along references, for every depth that is enough
  refine hsettled.induct (P := fun name member => ∀ depth, g.order.idxOf name ≤ depth →
    ∀ scope, ∃ text, showWithin manner g.partials depth member.component.nodes scope = .ok text)
    (fun name member hmem ih depth hdepth scope => ?_) hmem depth hdepth scope
  rw [Render.showWithin_eq]
  refine Render.exists_nodes_eq_ok _ (fun other hother location scope => ?_) scope
  have hreferred := included_subset_references (hsettled.load hmem) hother
  obtain ⟨target, htarget, hshows⟩ := ih other hreferred
  -- what is included stands further to the front, so one level less is enough
  have hbefore : g.order.idxOf other < g.order.idxOf name := hsettled.idxOf_lt hmem hreferred
  obtain ⟨less, rfl⟩ : ∃ less, depth = less + 1 := Nat.exists_eq_succ_of_ne_zero (by omega)
  have htree : Render.treeOf? g.partials other = some target.component.nodes := by
    rw [treeOf?_partials]
    exact treeOf?_eq_some ((member?_eq_some_iff hsettled).2 htarget)
  rw [Render.embedding_succ htree]
  exact hshows less (by omega) scope

/-- **A member shows what it shows with its partials put in.** There is one way to
put them in and none is left. Rendering a member fails only if its partials lie
deeper inside one another than they may, and not if they may lie as deep as
there are other members. -/
theorem tree_eq_inlined (h : resolve library root = .ok g)
    (hmember : g.member? name = some member) :
    ∃ whole, (∀ nodes, Inlines g.treeOf? member.component.nodes nodes ↔ nodes = whole) ∧
      Node.included whole = [] ∧
      ∀ manner scope,
        (∀ e, Render.tree manner g.partials member.component.nodes scope = .error e →
          ∃ included location, e = .nestedTooDeep included location manner.maxDepth) ∧
        (g.members.length - 1 ≤ manner.maxDepth → ∃ text,
          Render.tree manner g.partials member.component.nodes scope = .ok text ∧
            Render.tree manner (fun _ => none) whole scope = .ok text) := by
  have hsettled := settled_of_resolve h
  have hmem := Keyed.mem_of_get? hmember
  obtain ⟨whole, hwhole⟩ := exists_inlines_of_mem hsettled hmem
  refine ⟨whole, fun nodes => ⟨fun hnodes => hnodes.unique hwhole, ?_⟩, hwhole.included,
    fun manner scope => ⟨fun e herror => ?_, fun hdepth => ?_⟩⟩
  · rintro rfl
    exact hwhole
  · obtain ⟨cause, hcause, rfl⟩ := Except.mapError_eq_error_iff.1 herror
    obtain ⟨included, location, rfl⟩ := (closed_partials hsettled).failure
      (included_subset_order hsettled hmember) hcause
    exact ⟨included, location, rfl⟩
  · have hposition : g.order.idxOf name < g.order.length :=
      List.idxOf_lt_length_of_mem (List.mem_map_of_mem hmem)
    have hlength : g.order.length = g.members.length := List.length_map Prod.fst
    have henough : g.order.idxOf name ≤ manner.maxDepth := by omega
    obtain ⟨text, hshown⟩ := exists_showWithin_eq_ok hsettled hmem henough manner scope
    refine ⟨text, Except.mapError_eq_ok_iff.2 hshown, Except.mapError_eq_ok_iff.2 ?_⟩
    rw [Render.showWithin_eq] at hshown ⊢
    rw [← treeOf?_partials] at hwhole
    exact Render.nodes_of_inlines hwhole _ hshown

/-- Partials in a loop and in a condition, one of them shared. -/
theorem tree_eq_inlined_gallery :
    ∃ g member, resolve gallery.library "page" = .ok g ∧ g.member? g.root = some member ∧
      ∃ whole, (∀ nodes, Inlines g.treeOf? member.component.nodes nodes ↔ nodes = whole) ∧
        Node.included whole = [] ∧
        ∀ manner scope,
          (∀ e, Render.tree manner g.partials member.component.nodes scope = .error e →
            ∃ included location, e = .nestedTooDeep included location manner.maxDepth) ∧
          (g.members.length - 1 ≤ manner.maxDepth → ∃ text,
            Render.tree manner g.partials member.component.nodes scope = .ok text ∧
              Render.tree manner (fun _ => none) whole scope = .ok text) := by
  obtain ⟨g, hg, -⟩ := exists_graph_gallery
  obtain ⟨member, hmember⟩ := exists_member?_root hg
  exact ⟨g, member, hg, hmember, tree_eq_inlined hg hmember⟩

/-! ## Partials read anew -/

/-- A member shows what its source shows. -/
theorem tree_eq_of_member? (hsettled : Settled library g.members)
    (hmember : g.member? name = some member) (manner : Manner) (scope : Lookup) :
    Render.tree manner g.partials member.component.nodes scope =
      Render.source manner (Site.partialsOf library) member.source scope := by
  have hload := load_of_member? hsettled hmember
  obtain ⟨-, hcomponent, -⟩ := load_eq_ok_iff.1 hload
  have hsame : ∀ other ∈ g.order,
      Render.treeOf? (Site.partialsOf library) other = Render.treeOf? g.partials other := by
    intro other hother
    obtain ⟨target, htarget⟩ := mem_order_iff_member?.1 hother
    rw [treeOf?_partials, treeOf?_eq_some htarget]
    exact treeOf?_partialsOf (load_of_member? hsettled htarget)
  have hshown := (closed_partials hsettled).showWithin_congr hsame
    (included_subset_order hsettled hmember) manner manner.maxDepth scope
  calc Render.tree manner g.partials member.component.nodes scope
      = Render.tree manner (Site.partialsOf library) member.component.nodes scope :=
        congrArg (Except.mapError Failure.whileRendering) hshown
    _ = Render.source manner (Site.partialsOf library) member.source scope := by
        rw [Render.source, shownTree_eq hcomponent]
        rfl

/-- **Read ahead or read anew, a root shows the same.** Its graph serves the
partials as trees; from the library they are read at each inclusion. Text and
failures agree, for every scope and every manner of rendering. -/
theorem tree_eq_source (h : resolve library root = .ok g) :
    ∃ member, g.member? g.root = some member ∧ library.fetch root = .ok (some member.source) ∧
      ∀ manner scope, Render.tree manner g.partials member.component.nodes scope =
        Render.source manner (Site.partialsOf library) member.source scope := by
  have hsettled := settled_of_resolve h
  obtain ⟨hroot, -⟩ := extends_of_resolve h
  obtain ⟨member, hmember⟩ := exists_member?_root h
  obtain ⟨hfetch, -⟩ := load_eq_ok_iff.1 (load_of_member? hsettled hmember)
  rw [hroot] at hfetch
  exact ⟨member, hmember, hfetch, tree_eq_of_member? hsettled hmember⟩

/-- A document whose partials are markup. -/
theorem tree_eq_source_gallery :
    ∃ g, resolve gallery.library "page" = .ok g ∧
      ∃ member, g.member? g.root = some member ∧
        gallery.library.fetch "page" = .ok (some member.source) ∧
        ∀ manner scope, Render.tree manner g.partials member.component.nodes scope =
          Render.source manner (Site.partialsOf gallery.library) member.source scope := by
  obtain ⟨g, hg, -⟩ := exists_graph_gallery
  exact ⟨g, hg, tree_eq_source hg⟩

end Graph

end Trellis
