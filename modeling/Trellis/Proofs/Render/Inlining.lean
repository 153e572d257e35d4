import Trellis.Proofs.Render.Depth
/-!
# Render — trees without partials

Putting trees in the place of the partials that a tree includes, and so on in
these trees, leaves one tree that includes none (`Inlines.included`). There is
no other (`Inlines.unique`), it is there if the partials' own trees have one
(`exists_inlines`), and it shows what the tree shows with its partials, in the
scope of each place that includes one (`nodes_of_inlines`).
-/

namespace Trellis

open Markup (Node)

namespace Markup

variable {trees : String → Option (List Node)} {ns whole other : List Node}

/-- **A tree with its partials put in**: each partial gives way to what the tree
behind its name becomes, in the branches of blocks as well. -/
inductive Inlines (trees : String → Option (List Node)) : List Node → List Node → Prop where
  | nil : Inlines trees [] []
  | text {content : String} {place : Location} {rest whole : List Node}
      (more : Inlines trees rest whole) :
      Inlines trees (.text content place :: rest) (.text content place :: whole)
  | placeholder {name : String} {raw : Bool} {place : Location} {rest whole : List Node}
      (more : Inlines trees rest whole) :
      Inlines trees (.placeholder name raw place :: rest) (.placeholder name raw place :: whole)
  | inclusion {name : String} {place : Location} {tree inner rest whole : List Node}
      (served : trees name = some tree) (within : Inlines trees tree inner)
      (more : Inlines trees rest whole) :
      Inlines trees (.inclusion name place :: rest) (inner ++ whole)
  | conditional {condition : String} {place : Location}
      {body body' alternative alternative' rest whole : List Node}
      (holding : Inlines trees body body') (failing : Inlines trees alternative alternative')
      (more : Inlines trees rest whole) :
      Inlines trees (.conditional condition body alternative place :: rest)
        (.conditional condition body' alternative' place :: whole)
  | negated {condition : String} {place : Location} {body body' rest whole : List Node}
      (within : Inlines trees body body') (more : Inlines trees rest whole) :
      Inlines trees (.negated condition body place :: rest)
        (.negated condition body' place :: whole)
  | loop {collection : String} {place : Location} {body body' rest whole : List Node}
      (within : Inlines trees body body') (more : Inlines trees rest whole) :
      Inlines trees (.loop collection body place :: rest) (.loop collection body' place :: whole)

/-- There is one way to put partials in. -/
theorem Inlines.unique (h : Inlines trees ns whole) (h' : Inlines trees ns other) :
    whole = other := by
  induction h generalizing other with
  | nil => cases h' with | nil => rfl
  | text _ ih => cases h' with | text more => rw [ih more]
  | placeholder _ ih => cases h' with | placeholder more => rw [ih more]
  | inclusion served _ _ ihwithin ih =>
    cases h' with
    | inclusion served' within more =>
      rw [served] at served'
      obtain rfl := Option.some.inj served'
      rw [ihwithin within, ih more]
  | conditional _ _ _ ihholding ihfailing ih =>
    cases h' with
    | conditional holding failing more => rw [ihholding holding, ihfailing failing, ih more]
  | negated _ _ ihwithin ih => cases h' with | negated within more => rw [ihwithin within, ih more]
  | loop _ _ ihwithin ih => cases h' with | loop within more => rw [ihwithin within, ih more]

/-- **No partial is left.** -/
theorem Inlines.included (h : Inlines trees ns whole) : Node.included whole = [] := by
  induction h with
  | nil => rfl
  | text _ ih | placeholder _ ih => exact ih
  | inclusion _ _ _ ihwithin ih => rw [Node.included_append, ihwithin, ih]; rfl
  | conditional _ _ _ ihholding ihfailing ih =>
    rw [Node.included_conditional, ihholding, ihfailing, ih]
    rfl
  | negated _ _ ihwithin ih => rw [Node.included_negated, ihwithin, ih]; rfl
  | loop _ _ ihwithin ih => rw [Node.included_loop, ihwithin, ih]; rfl

/-- Partials can be put into a tree if they can be put into theirs. -/
theorem exists_inlines (ns : List Node)
    (h : ∀ name ∈ Node.included ns,
      ∃ tree inner, trees name = some tree ∧ Inlines trees tree inner) :
    ∃ whole, Inlines trees ns whole := by
  induction ns using Node.forestInduction with
  | nil => exact ⟨[], .nil⟩
  | text content place rest ih =>
    obtain ⟨whole, hwhole⟩ := ih h
    exact ⟨_, .text hwhole⟩
  | placeholder name raw place rest ih =>
    obtain ⟨whole, hwhole⟩ := ih h
    exact ⟨_, .placeholder hwhole⟩
  | inclusion name place rest ih =>
    simp only [Node.included_inclusion, List.mem_cons, forall_eq_or_imp] at h
    obtain ⟨⟨tree, inner, hserved, hinner⟩, hrest⟩ := h
    obtain ⟨whole, hwhole⟩ := ih hrest
    exact ⟨_, .inclusion hserved hinner hwhole⟩
  | conditional condition body alternative place rest ihbody ihalternative ih =>
    simp only [Node.included_conditional, List.mem_append, or_imp, forall_and] at h
    obtain ⟨body', hbody⟩ := ihbody h.1
    obtain ⟨alternative', halternative⟩ := ihalternative h.2.1
    obtain ⟨whole, hwhole⟩ := ih h.2.2
    exact ⟨_, .conditional hbody halternative hwhole⟩
  | negated condition body place rest ihbody ih =>
    simp only [Node.included_negated, List.mem_append, or_imp, forall_and] at h
    obtain ⟨body', hbody⟩ := ihbody h.1
    obtain ⟨whole, hwhole⟩ := ih h.2
    exact ⟨_, .negated hbody hwhole⟩
  | loop collection body place rest ihbody ih =>
    simp only [Node.included_loop, List.mem_append, or_imp, forall_and] at h
    obtain ⟨body', hbody⟩ := ihbody h.1
    obtain ⟨whole, hwhole⟩ := ih h.2
    exact ⟨_, .loop hbody hwhole⟩

end Markup

namespace Render

open Markup (Inlines)

variable {manner : Manner} {partials : Partials} {depth : Nat} {ns whole : List Node}
  {scope : Lookup} {text : List Char}

/-- **With its partials put in, a tree shows what it shows with them embedded.**
What is embedded by then plays no part. -/
theorem nodes_of_inlines (h : Inlines (treeOf? partials) ns whole) (embed : Inclusion)
    (hshown : nodes manner.escaping (embedding manner partials depth) ns scope = .ok text) :
    nodes manner.escaping embed whole scope = .ok text := by
  -- the depth goes down at each partial, the scope grows at each loop
  induction h generalizing depth scope text with
  | nil => exact hshown
  | text _ ih | placeholder _ ih => exact nodes_cons_of_ok hshown (fun _ hnode => hnode) fun _ => ih
  | inclusion served _ _ ihwithin ih =>
    obtain ⟨first, more, hfirst, hmore, rfl⟩ := nodes_cons_eq_ok_iff.1 hshown
    rw [node] at hfirst
    cases depth with
    | zero => cases hfirst
    | succ depth =>
      -- what stands for the partial was shown one level deeper, in the same scope
      rw [embedding_succ served, showWithin_eq] at hfirst
      exact nodes_append (ihwithin hfirst) (ih hmore)
  | conditional _ _ _ ihholding ihfailing ih =>
    refine nodes_cons_of_ok hshown (fun text hnode => ?_) fun _ => ih
    rw [node] at hnode ⊢
    split at hnode
    · next hholds =>
      rw [if_pos hholds]
      exact ihholding hnode
    · next hholds =>
      rw [if_neg hholds]
      exact ihfailing hnode
  | negated _ _ ihwithin ih =>
    refine nodes_cons_of_ok hshown (fun text hnode => ?_) fun _ => ih
    rw [node] at hnode ⊢
    split at hnode
    · next hholds =>
      rw [if_pos hholds]
      exact hnode
    · next hholds =>
      rw [if_neg hholds]
      exact ihwithin hnode
  | @loop collection _ _ _ _ _ _ _ ihwithin ih =>
    refine nodes_cons_of_ok hshown (fun text hnode => ?_) fun _ => ih
    rw [node] at hnode ⊢
    cases hvalue : scope collection with
    | none =>
      rw [hvalue] at hnode
      exact hnode
    | some value =>
      rw [hvalue] at hnode
      exact inOrder_of_ok (fun overlay _ text hbody => ihwithin hbody) hnode

end Render

end Trellis
