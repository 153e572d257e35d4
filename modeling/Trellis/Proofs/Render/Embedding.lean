import Trellis.Proofs.Except
import Trellis.Proofs.Markup.Inclusions
import Trellis.Render
/-!
# Render — what a tree shows depends on

A walk over a tree asks for its partials only through the function that embeds
them, and only under the names that the tree includes. So two functions that
agree on these names show the same (`nodes_congr`), and a walk fails only if
one of these partials does (`exists_of_nodes_eq_error`).
-/

namespace Trellis

namespace Render

open Markup (Node)

variable {α : Type} {show? show' : α → Shown} {inputs : List α} {escaping : Escaping}
  {embed embed' : Inclusion} {ns rest others : List Node} {n m : Node} {scope : Lookup}
  {first second text : List Char} {e : Failure}

/-! ## One step behind another -/

/-- What two steps show together. -/
theorem appended_eq_ok_iff {x y : Shown} :
    (do let first ← x; let more ← y; return first ++ more) = Except.ok text ↔
      ∃ first more, x = .ok first ∧ y = .ok more ∧ text = first ++ more := by
  constructor
  · intro h
    obtain ⟨first, hfirst, hrest⟩ := Except.bind_eq_ok_iff.1 h
    obtain ⟨more, hmore, hlast⟩ := Except.bind_eq_ok_iff.1 hrest
    exact ⟨first, more, hfirst, hmore, (Except.ok.inj hlast).symm⟩
  · rintro ⟨first, more, rfl, rfl, rfl⟩
    rfl

/-- Two steps fail together only if one of them does. -/
theorem eq_error_of_appended {x y : Shown}
    (h : (do let first ← x; let more ← y; return first ++ more) = Except.error e) :
    x = .error e ∨ y = .error e := by
  rcases Except.bind_eq_error_iff.1 h with hfirst | ⟨first, -, hrest⟩
  · exact .inl hfirst
  · rcases Except.bind_eq_error_iff.1 hrest with hmore | ⟨more, -, hlast⟩
    · exact .inr hmore
    · cases hlast

theorem nodes_cons_eq_ok_iff :
    nodes escaping embed (n :: rest) scope = .ok text ↔
      ∃ first more, node escaping embed n scope = .ok first ∧
        nodes escaping embed rest scope = .ok more ∧ text = first ++ more := by
  rw [nodes]
  exact appended_eq_ok_iff

/-- Nodes that show the same wherever they show something do so behind one
another. -/
theorem nodes_cons_of_ok (hshown : nodes escaping embed (n :: rest) scope = .ok text)
    (hnode : ∀ text, node escaping embed n scope = .ok text →
      node escaping embed' m scope = .ok text)
    (hrest : ∀ text, nodes escaping embed rest scope = .ok text →
      nodes escaping embed' others scope = .ok text) :
    nodes escaping embed' (m :: others) scope = .ok text := by
  obtain ⟨first, more, hfirst, hmore, rfl⟩ := nodes_cons_eq_ok_iff.1 hshown
  exact nodes_cons_eq_ok_iff.2 ⟨first, more, hnode first hfirst, hrest more hmore, rfl⟩

theorem eq_error_of_nodes_cons (h : nodes escaping embed (n :: rest) scope = .error e) :
    node escaping embed n scope = .error e ∨ nodes escaping embed rest scope = .error e := by
  rw [nodes] at h
  exact eq_error_of_appended h

/-- Trees behind one another show their texts behind one another. -/
theorem nodes_append (hfirst : nodes escaping embed ns scope = .ok first)
    (hsecond : nodes escaping embed rest scope = .ok second) :
    nodes escaping embed (ns ++ rest) scope = .ok (first ++ second) := by
  induction ns generalizing first with
  | nil =>
    rw [nodes] at hfirst
    obtain rfl := Except.ok.inj hfirst
    exact hsecond
  | cons n ns ih =>
    obtain ⟨shown, more, hnode, hmore, rfl⟩ := nodes_cons_eq_ok_iff.1 hfirst
    exact nodes_cons_eq_ok_iff.2 ⟨shown, more ++ second, hnode, ih hmore, List.append_assoc _ _ _⟩

/-! ## Loops -/

theorem exists_of_inOrder_eq_error (h : inOrder show? inputs = .error e) :
    ∃ a ∈ inputs, show? a = .error e := by
  induction inputs with
  | nil => cases h
  | cons a inputs ih =>
    rw [inOrder] at h
    rcases eq_error_of_appended h with hfirst | hrest
    · exact ⟨a, List.mem_cons_self, hfirst⟩
    · obtain ⟨b, hb, hshown⟩ := ih hrest
      exact ⟨b, List.mem_cons_of_mem a hb, hshown⟩

/-- Steps that show the same wherever they show something do so in a row. -/
theorem inOrder_of_ok (h : ∀ a ∈ inputs, ∀ text, show? a = .ok text → show' a = .ok text)
    (hshown : inOrder show? inputs = .ok text) : inOrder show' inputs = .ok text := by
  induction inputs generalizing text with
  | nil => exact hshown
  | cons a inputs ih =>
    rw [inOrder] at hshown ⊢
    obtain ⟨first, more, hfirst, hmore, rfl⟩ := appended_eq_ok_iff.1 hshown
    exact appended_eq_ok_iff.2 ⟨first, more, h a List.mem_cons_self first hfirst,
      ih (fun b hb => h b (List.mem_cons_of_mem a hb)) hmore, rfl⟩

/-! ## Trees -/

/-- **A tree asks only for the partials that it includes.** -/
theorem nodes_congr (ns : List Node)
    (h : ∀ name ∈ Node.included ns, ∀ location scope,
      embed name location scope = embed' name location scope) (scope : Lookup) :
    nodes escaping embed ns scope = nodes escaping embed' ns scope := by
  induction ns using Node.forestInduction generalizing scope with
  | nil => rw [nodes, nodes]
  | text content location rest ih => rw [nodes, nodes, node, node, ih h]
  | placeholder name raw location rest ih => rw [nodes, nodes, node, node, ih h]
  | inclusion name location rest ih =>
    simp only [Node.included_inclusion, List.mem_cons, forall_eq_or_imp] at h
    rw [nodes, nodes, node, node, h.1, ih h.2]
  | conditional condition body alternative location rest ihbody ihalternative ih =>
    simp only [Node.included_conditional, List.mem_append, or_imp, forall_and] at h
    rw [nodes, nodes, node, node, ihbody h.1, ihalternative h.2.1, ih h.2.2]
  | negated condition body location rest ihbody ih =>
    simp only [Node.included_negated, List.mem_append, or_imp, forall_and] at h
    rw [nodes, nodes, node, node, ihbody h.1, ih h.2]
  | loop collection body location rest ihbody ih =>
    simp only [Node.included_loop, List.mem_append, or_imp, forall_and] at h
    rw [nodes, nodes, node, node, ih h.2]
    simp only [ihbody h.1]

/-- **A tree fails only as the partials do that it includes.** -/
theorem of_nodes_eq_error {P : Failure → Prop} (ns : List Node)
    (h : ∀ name ∈ Node.included ns, ∀ location scope e,
      embed name location scope = .error e → P e)
    {scope : Lookup} (herror : nodes escaping embed ns scope = .error e) : P e := by
  induction ns using Node.forestInduction generalizing scope with
  | nil =>
    rw [nodes] at herror
    cases herror
  | text content location rest ih | placeholder name raw location rest ih =>
    rcases eq_error_of_nodes_cons herror with hnode | hrest
    · rw [node] at hnode
      cases hnode
    · exact ih h hrest
  | inclusion name location rest ih =>
    simp only [Node.included_inclusion, List.mem_cons, forall_eq_or_imp] at h
    rcases eq_error_of_nodes_cons herror with hnode | hrest
    · rw [node] at hnode
      exact h.1 location scope e hnode
    · exact ih h.2 hrest
  | conditional condition body alternative location rest ihbody ihalternative ih =>
    simp only [Node.included_conditional, List.mem_append, or_imp, forall_and] at h
    rcases eq_error_of_nodes_cons herror with hnode | hrest
    · rw [node] at hnode
      split at hnode
      · exact ihbody h.1 hnode
      · exact ihalternative h.2.1 hnode
    · exact ih h.2.2 hrest
  | negated condition body location rest ihbody ih =>
    simp only [Node.included_negated, List.mem_append, or_imp, forall_and] at h
    rcases eq_error_of_nodes_cons herror with hnode | hrest
    · rw [node] at hnode
      split at hnode
      · cases hnode
      · exact ihbody h.1 hnode
    · exact ih h.2 hrest
  | loop collection body location rest ihbody ih =>
    simp only [Node.included_loop, List.mem_append, or_imp, forall_and] at h
    rcases eq_error_of_nodes_cons herror with hnode | hrest
    · rw [node] at hnode
      split at hnode
      · cases hnode
      · obtain ⟨overlay, -, hshown⟩ := exists_of_inOrder_eq_error hnode
        exact ihbody h.1 hshown
    · exact ih h.2 hrest

/-- A tree that fails includes a partial that does. -/
theorem exists_of_nodes_eq_error (h : nodes escaping embed ns scope = .error e) :
    ∃ name ∈ Node.included ns, ∃ location scope, embed name location scope = .error e :=
  of_nodes_eq_error
    (P := fun e =>
      ∃ name ∈ Node.included ns, ∃ location scope, embed name location scope = .error e)
    ns (fun name hname location scope _ herror => ⟨name, hname, location, scope, herror⟩) h

/-- A tree all of whose partials show something shows something. -/
theorem exists_nodes_eq_ok (ns : List Node)
    (h : ∀ name ∈ Node.included ns, ∀ location scope, ∃ text,
      embed name location scope = .ok text) (scope : Lookup) :
    ∃ text, nodes escaping embed ns scope = .ok text := by
  cases hshown : nodes escaping embed ns scope with
  | ok text => exact ⟨text, rfl⟩
  | error e =>
    obtain ⟨name, hname, location, scope, herror⟩ := exists_of_nodes_eq_error hshown
    obtain ⟨text, hok⟩ := h name hname location scope
    rw [hok] at herror
    cases herror

end Render

end Trellis
