import Trellis.Proofs.Render.Embedding
/-!
# Render — partials inside one another

What a partial shows depends on how many may still lie inside of it and on the
tree that it comes to, not on whether that tree is handed over or read anew
(`Closed.showWithin_congr`). There are three ways to fail, and where all
partials are there and can be read only the depth is left of them
(`Closed.failure`).
-/

namespace Trellis

namespace Render

open Markup (Node)

variable {ns tree : List Node} {scope : Lookup} {e : Failure} {manner : Manner}
  {partials partials' : Partials} {depth : Nat} {name : String} {location : Location}
  {names : List String}

/-- What a partial shows when so many may still lie inside one another. -/
def embedding (manner : Manner) (partials : Partials) : Nat → Inclusion
  | 0 => fun name location _ => .error (.nestedTooDeep name location manner.maxDepth)
  | depth + 1 => fun name location scope =>
    match partials name with
    | none => .error (.partialNotFound name location)
    | some served => do
      let tree ← served.tree?
      showWithin manner partials depth tree scope

/-- A tree within a depth is shown with such partials embedded. -/
theorem showWithin_eq (manner : Manner) (partials : Partials) (depth : Nat) :
    showWithin manner partials depth = nodes manner.escaping (embedding manner partials depth) := by
  cases depth <;> rfl

/-- The tree that a partial comes to, if it is there and can be read. -/
def treeOf? (partials : Partials) (name : String) : Option (List Node) :=
  (partials name).bind fun served => served.tree?.toOption

theorem embedding_succ (h : treeOf? partials name = some tree) :
    embedding manner partials (depth + 1) name location scope =
      showWithin manner partials depth tree scope := by
  obtain ⟨served, hserved, htree⟩ := Option.bind_eq_some_iff.1 h
  cases hread : served.tree? with
  | error e =>
    rw [hread] at htree
    cases htree
  | ok read =>
    rw [hread] at htree
    obtain rfl := Option.some.inj htree
    simp only [embedding, hserved, hread]
    rfl

/-- What cannot be read is a fault of a source. -/
theorem exists_source_of_tree? {served : Served} (h : served.tree? = .error e) :
    ∃ cause, e = .source cause := by
  cases served with
  | tree nodes => cases h
  | source text =>
    obtain ⟨cause, -, rfl⟩ := Except.mapError_eq_error_iff.1 h
    exact ⟨cause, rfl⟩

/-- **How a tree can fail**: partials lie too deep inside one another, one is not
there, or one cannot be read. -/
theorem failure_of_showWithin (h : showWithin manner partials depth ns scope = .error e) :
    (∃ name location, e = .nestedTooDeep name location manner.maxDepth) ∨
      (∃ name location, e = .partialNotFound name location) ∨
        ∃ name served cause, partials name = some served ∧ e = .source cause := by
  induction depth generalizing ns scope with
  | zero =>
    rw [showWithin_eq] at h
    obtain ⟨name, -, location, scope, herror⟩ := exists_of_nodes_eq_error h
    exact .inl ⟨name, location, (Except.error.inj herror).symm⟩
  | succ depth ih =>
    rw [showWithin_eq] at h
    obtain ⟨name, -, location, scope, herror⟩ := exists_of_nodes_eq_error h
    cases hserved : partials name with
    | none =>
      simp only [embedding, hserved] at herror
      exact .inr (.inl ⟨name, location, (Except.error.inj herror).symm⟩)
    | some served =>
      simp only [embedding, hserved] at herror
      rcases Except.bind_eq_error_iff.1 herror with hread | ⟨tree, -, hbelow⟩
      · obtain ⟨cause, hcause⟩ := exists_source_of_tree? hread
        exact .inr (.inr ⟨name, served, cause, hserved, hcause⟩)
      · exact ih hbelow

/-- Names whose partials are there, can be read, and include no other names. -/
def Closed (partials : Partials) (names : List String) : Prop :=
  ∀ name ∈ names, ∃ tree, treeOf? partials name = some tree ∧ Node.included tree ⊆ names

/-- **Where all partials are there only the depth can fail.** -/
theorem Closed.failure (hclosed : Closed partials names) (hincluded : Node.included ns ⊆ names)
    (h : showWithin manner partials depth ns scope = .error e) :
    ∃ name location, e = .nestedTooDeep name location manner.maxDepth := by
  induction depth generalizing ns scope with
  | zero =>
    rw [showWithin_eq] at h
    obtain ⟨name, -, location, scope, herror⟩ := exists_of_nodes_eq_error h
    exact ⟨name, location, (Except.error.inj herror).symm⟩
  | succ depth ih =>
    rw [showWithin_eq] at h
    obtain ⟨name, hname, location, scope, herror⟩ := exists_of_nodes_eq_error h
    obtain ⟨tree, htree, hsubset⟩ := hclosed name (hincluded hname)
    rw [embedding_succ htree] at herror
    exact ih hsubset herror

/-- **What partials come to is all that counts of them.** -/
theorem Closed.showWithin_congr (hclosed : Closed partials names)
    (hsame : ∀ name ∈ names, treeOf? partials' name = treeOf? partials name)
    (hincluded : Node.included ns ⊆ names) (manner : Manner) (depth : Nat) (scope : Lookup) :
    showWithin manner partials depth ns scope = showWithin manner partials' depth ns scope := by
  induction depth generalizing ns scope with
  | zero => rfl
  | succ depth ih =>
    rw [showWithin_eq, showWithin_eq]
    refine nodes_congr ns (fun name hname location scope => ?_) scope
    obtain ⟨tree, htree, hsubset⟩ := hclosed name (hincluded hname)
    rw [embedding_succ htree, embedding_succ ((hsame name (hincluded hname)).trans htree)]
    exact ih hsubset scope

end Render

end Trellis
