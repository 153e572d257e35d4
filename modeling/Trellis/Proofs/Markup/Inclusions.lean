import Trellis.Proofs.Markup.Flattening
/-!
# Markup — the partials of a tree

The partials that a tree includes, at any depth and one for each mention, with
one equation for each kind of node. They are the ones that the tree's tokens
mention, in the same order, so a text with a tree mentions what the tree
includes (`included_eq_mentions`). Lists of nodes come with an induction that
reaches into the branches of blocks (`Node.forestInduction`).
-/

namespace Trellis

namespace Markup

namespace Node

/-- Induction over a list of nodes and, with it, over the branches of its
blocks. -/
@[elab_as_elim]
theorem forestInduction {motive : List Node → Prop} (nil : motive [])
    (text : ∀ content place rest, motive rest → motive (.text content place :: rest))
    (placeholder : ∀ name raw place rest, motive rest →
      motive (.placeholder name raw place :: rest))
    (inclusion : ∀ name place rest, motive rest → motive (.inclusion name place :: rest))
    (conditional : ∀ condition body alternative place rest, motive body → motive alternative →
      motive rest → motive (.conditional condition body alternative place :: rest))
    (negated : ∀ condition body place rest, motive body → motive rest →
      motive (.negated condition body place :: rest))
    (loop : ∀ collection body place rest, motive body → motive rest →
      motive (.loop collection body place :: rest))
    (nodes : List Node) : motive nodes :=
  @Node.rec_1 (fun node => ∀ rest, motive rest → motive (node :: rest)) motive
    text placeholder inclusion
    (fun condition body alternative place hbody halternative rest hrest =>
      conditional condition body alternative place rest hbody halternative hrest)
    (fun condition body place hbody rest hrest => negated condition body place rest hbody hrest)
    (fun collection body place hbody rest hrest => loop collection body place rest hbody hrest)
    nil (fun _ rest hnode hrest => hnode rest hrest) nodes

/-- The partial that a node includes itself. -/
def included? : Node → Option String
  | inclusion name _ => some name
  | _ => none

/-- The partials that a tree includes, one for each mention. -/
def included (nodes : List Node) : List String :=
  (flatAll nodes).filterMap included?

section Equations

variable (rest body alternative : List Node) (place : Location)

theorem included_append (first second : List Node) :
    included (first ++ second) = included first ++ included second := by
  rw [included, flatAll_append, List.filterMap_append]
  rfl

@[simp] theorem included_nil : included [] = [] := rfl

@[simp] theorem included_text (content : String) :
    included (.text content place :: rest) = included rest := rfl

@[simp] theorem included_placeholder (name : String) (raw : Bool) :
    included (.placeholder name raw place :: rest) = included rest := rfl

@[simp] theorem included_inclusion (name : String) :
    included (.inclusion name place :: rest) = name :: included rest := rfl

@[simp] theorem included_conditional (condition : String) :
    included (.conditional condition body alternative place :: rest) =
      included body ++ (included alternative ++ included rest) := by
  simp [included, flatAll, flat, List.filterMap_cons, included?]

@[simp] theorem included_negated (condition : String) :
    included (.negated condition body place :: rest) = included body ++ included rest := by
  simp [included, flatAll, flat, List.filterMap_cons, included?]

@[simp] theorem included_loop (collection : String) :
    included (.loop collection body place :: rest) = included body ++ included rest := by
  simp [included, flatAll, flat, List.filterMap_cons, included?]

end Equations

end Node

/-- **The tokens of a tree mention what it includes.** -/
theorem included_of_derives {ls : List Lexeme} {ns : List Node} (h : Derives ls ns) :
    Node.included ns = ls.filterMap fun lexeme => lexeme.token.included? := by
  have hmarks (token : Token) (hleads : token.leads = false) : token.included? = none := by
    cases token <;> simp_all [Token.leads, Token.included?]
  rw [← filterMap_flatAll h hmarks]
  refine List.filterMap_congr fun node _ => ?_
  cases node <;> rfl

/-- **A text with a tree mentions what the tree includes**, wherever the text
stands. -/
theorem included_eq_mentions {text : String} {origin : Location} {ns : List Node}
    (h : parseAt text origin = .ok ns) : Node.included ns = mentions text := by
  rw [included_of_derives (treeOf_eq_ok_iff.1 h).2, mentions_eq]

/-- The names of the partials that a tree includes are what it includes, each
once. -/
theorem inclusionNames_eq (ns : List Node) :
    Node.inclusionNames ns = Text.distinct (Node.included ns) := by
  refine congrArg Text.distinct (List.filterMap_congr fun node _ => ?_)
  cases node <;> rfl

/-- **A text with a tree mentions the partials that the tree names**, wherever the
text stands. -/
theorem mentionedPartials_of_parseAt {text : String} {origin : Location} {ns : List Node}
    (h : parseAt text origin = .ok ns) : mentionedPartials text = .ok (Node.inclusionNames ns) := by
  rw [mentionedPartials_eq h, inclusionNames_eq, Text.distinct_eq_eraseDups,
    included_eq_mentions h]

end Markup

end Trellis
