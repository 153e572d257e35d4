import Trellis.Proofs.Render.Depth
/-!
# Render — raising the limit on nesting

The limit on how deep partials may lie inside one another does nothing but stop
a tree that goes deeper. A walk ends at its first failure, so two walks whose
partials agree, save where the limit stops the first of them, agree themselves
save where it is stopped (`agrees_nodes`). By induction on the nesting that is
still allowed, whatever a limit did not stop is the same under any greater one
(`shown_of_le_limit`).
-/

namespace Trellis

namespace Render

open Markup (Node)

variable {x x' y y' : Shown} {α : Type} {show? show?' : α → Shown} {escaping : Escaping}
  {embed embed' : Inclusion} {partials : Partials} {depth depth' limit limit' : Nat}

/-- That partials lay deeper inside one another than they may. -/
def Stopped (shown : Shown) : Prop :=
  ∃ name location limit, shown = .error (.nestedTooDeep name location limit)

/-- That a second result is the first one, unless the limit stopped that. -/
def Agrees (shown raised : Shown) : Prop :=
  Stopped shown ∨ raised = shown

/-! ## One step behind another -/

/-- **The first failure counts**: if it is the limit's, the whole is stopped, and
if it is another, the second step plays no part. -/
theorem Agrees.appended (hfirst : Agrees x x') (hmore : Agrees y y') :
    Agrees (do let first ← x; let more ← y; return first ++ more)
      (do let first ← x'; let more ← y'; return first ++ more) := by
  rcases hfirst with ⟨name, location, limit, rfl⟩ | rfl
  · exact .inl ⟨name, location, limit, rfl⟩
  · cases x' with
    | error e => exact .inr rfl
    | ok first =>
      rcases hmore with ⟨name, location, limit, rfl⟩ | rfl
      · exact .inl ⟨name, location, limit, rfl⟩
      · exact .inr rfl

theorem agrees_inOrder (h : ∀ a, Agrees (show? a) (show?' a)) (inputs : List α) :
    Agrees (inOrder show? inputs) (inOrder show?' inputs) := by
  induction inputs with
  | nil => exact .inr rfl
  | cons a inputs ih =>
    rw [inOrder, inOrder]
    exact (h a).appended ih

/-! ## Trees -/

/-- **Trees agree as their partials do.** -/
theorem agrees_nodes
    (h : ∀ name location scope, Agrees (embed name location scope) (embed' name location scope))
    (ns : List Node) (scope : Lookup) :
    Agrees (nodes escaping embed ns scope) (nodes escaping embed' ns scope) := by
  induction ns using Node.forestInduction generalizing scope with
  | nil =>
    rw [nodes, nodes]
    exact .inr rfl
  | text content location rest ih | placeholder name raw location rest ih =>
    rw [nodes, nodes, node, node]
    exact Agrees.appended (.inr rfl) (ih scope)
  | inclusion name location rest ih =>
    rw [nodes, nodes, node, node]
    exact (h name location scope).appended (ih scope)
  | conditional condition body alternative location rest ihbody ihalternative ih =>
    rw [nodes, nodes, node, node]
    refine Agrees.appended ?_ (ih scope)
    split
    · exact ihbody scope
    · exact ihalternative scope
  | negated condition body location rest ihbody ih =>
    rw [nodes, nodes, node, node]
    refine Agrees.appended ?_ (ih scope)
    split
    · exact .inr rfl
    · exact ihbody scope
  | loop collection body location rest ihbody ih =>
    rw [nodes, nodes, node, node]
    refine Agrees.appended ?_ (ih scope)
    split
    · exact .inr rfl
    · exact agrees_inOrder (fun overlay : Overlay => ihbody (overlay.inFrontOf scope)) _

/-! ## Limits -/

/-- **More nesting allowed changes only what was stopped.** A partial that may not
be embedded is stopped; one that may is the same tree, with one level less left
for what lies inside it. -/
theorem agrees_showWithin (limit limit' : Nat) (hdepth : depth ≤ depth') (ns : List Node)
    (scope : Lookup) :
    Agrees (showWithin ⟨limit, escaping⟩ partials depth ns scope)
      (showWithin ⟨limit', escaping⟩ partials depth' ns scope) := by
  induction depth generalizing depth' ns scope with
  | zero =>
    rw [showWithin_eq, showWithin_eq]
    exact agrees_nodes (fun name location _ => .inl ⟨name, location, limit, rfl⟩) ns scope
  | succ depth ih =>
    obtain ⟨less, rfl⟩ := Nat.exists_eq_succ_of_ne_zero (Nat.ne_zero_of_lt hdepth)
    rw [showWithin_eq, showWithin_eq]
    refine agrees_nodes (fun name location scope => ?_) ns scope
    cases hserved : partials name with
    | none =>
      simp only [embedding, hserved]
      exact .inr rfl
    | some served =>
      simp only [embedding, hserved]
      cases hread : served.tree? with
      | error e => exact .inr rfl
      | ok tree => exact ih (Nat.le_of_succ_le_succ hdepth) tree scope

/-- Wording failures anew hides no limit and brings none up. -/
theorem stopped_mapError_iff : Stopped (x.mapError Failure.whileRendering) ↔ Stopped x := by
  constructor
  · rintro ⟨name, location, limit, h⟩
    obtain ⟨cause, rfl, hcause⟩ := Except.mapError_eq_error_iff.1 h
    cases cause <;> cases hcause
    exact ⟨name, location, limit, rfl⟩
  · rintro ⟨name, location, limit, rfl⟩
    exact ⟨name, location, limit, rfl⟩

theorem agrees_tree (hlimit : limit ≤ limit') (ns : List Node) (scope : Lookup) :
    Agrees (tree ⟨limit, escaping⟩ partials ns scope)
      (tree ⟨limit', escaping⟩ partials ns scope) := by
  rcases agrees_showWithin limit limit' hlimit ns scope with hstopped | heq
  · exact .inl (stopped_mapError_iff.2 hstopped)
  · exact .inr (congrArg (Except.mapError Failure.whileRendering) heq)

/-- **A limit only cuts off.** Whatever a limit did not stop, a text or a failure of
another kind, is the same under any greater limit, for trees and for sources, in
every scope and whatever partials there are. -/
theorem shown_of_le_limit (hlimit : limit ≤ limit') :
    (∀ ns scope, ¬ Stopped (tree ⟨limit, escaping⟩ partials ns scope) →
      tree ⟨limit', escaping⟩ partials ns scope = tree ⟨limit, escaping⟩ partials ns scope) ∧
    ∀ text scope, ¬ Stopped (source ⟨limit, escaping⟩ partials text scope) →
      source ⟨limit', escaping⟩ partials text scope =
        source ⟨limit, escaping⟩ partials text scope := by
  have htree (ns : List Node) (scope : Lookup)
      (hshown : ¬ Stopped (tree ⟨limit, escaping⟩ partials ns scope)) :
      tree ⟨limit', escaping⟩ partials ns scope = tree ⟨limit, escaping⟩ partials ns scope :=
    (agrees_tree hlimit ns scope).resolve_left hshown
  refine ⟨htree, fun text scope hshown => ?_⟩
  unfold source at hshown ⊢
  cases hread : shownTree text with
  | error e => rfl
  | ok ns =>
    rw [hread] at hshown
    exact htree ns scope hshown

/-- Partials of which one includes itself for every entry of a list. -/
def outline : Partials := fun name =>
  if name = "entry" then
    some (.source ("\x7b\x7bname\x7d\x7d" ++
      "\x7b\x7b#each entries\x7d\x7d(\x7b\x7b> entry\x7d\x7d)\x7b\x7b/each\x7d\x7d"))
  else none

/-- Entries within an entry. -/
def bookScope : Scope where
  layers :=
    let entry (name : String) (entries : List Json.Value) : Json.Value :=
      .object [("entries", .array entries), ("name", .string name)]
    { server := [("entries", .array [entry "b" [entry "c" []], entry "d" []]),
        ("name", .string "a")] }

/-- A partial inside itself three times over, under a limit of three and of five. -/
theorem shown_of_le_limit_outline :
    3 ≤ 5 ∧ ¬ Stopped (source ⟨3, .page⟩ outline "\x7b\x7b> entry\x7d\x7d" bookScope) ∧
      source ⟨5, .page⟩ outline "\x7b\x7b> entry\x7d\x7d" bookScope =
        source ⟨3, .page⟩ outline "\x7b\x7b> entry\x7d\x7d" bookScope := by
  have hok : (source ⟨3, .page⟩ outline "\x7b\x7b> entry\x7d\x7d" bookScope).isOk = true := by
    decide +kernel
  have hshown : ¬ Stopped (source ⟨3, .page⟩ outline "\x7b\x7b> entry\x7d\x7d" bookScope) := by
    rintro ⟨name, location, limit, h⟩
    rw [h] at hok
    cases hok
  exact ⟨by decide, hshown, (shown_of_le_limit (by decide)).2 _ _ hshown⟩

end Render

end Trellis
