import Trellis.Proofs.Markup.Grammar
import Trellis.Proofs.Markup.Lexing
/-!
# Markup — the nodes of a tree in the order of its tokens

Each node of a tree starts with a token of its own: its text, its tag, or the
opener of its block. The other tokens, `else` and closers, start nothing. So the
nodes of a tree, listed each before what is below it, are the tokens that start
nodes, in their order and at their places (`leading_flatAll`), and whatever is
collected along the tree could be collected along the tokens.
-/

namespace Trellis

namespace Markup

/-- Whether a token starts a node. The others only mark where branches end. -/
def Token.leads : Token → Bool
  | .otherwise | .closer _ => false
  | _ => true

/-- Whether a token opens a block. -/
def Token.isOpener : Token → Bool
  | .opener .. => true
  | _ => false

/-- The name of the value that a token stands for. -/
def Token.shown? : Token → Option String
  | .placeholder name _ => some name
  | _ => none

/-- A token with the place where it starts. -/
def Lexeme.start (x : Lexeme) : Lexeme :=
  { x with location := x.location.upTo x.location.offset }

namespace Node

/-- The token that a node starts with. -/
def token : Node → Token
  | text content _ => .text content
  | placeholder name raw _ => .placeholder name raw
  | inclusion name _ => .inclusion name
  | conditional condition _ _ _ => .opener .conditional condition
  | negated condition _ _ => .opener .negated condition
  | loop collection _ _ => .opener .loop collection

/-- The token that a node starts with and the place where it does. -/
def leading (node : Node) : Lexeme :=
  ⟨node.token, node.location.upTo node.location.offset⟩

theorem flatAll_append (first second : List Node) :
    flatAll (first ++ second) = flatAll first ++ flatAll second := by
  induction first with
  | nil => rfl
  | cons node first ih => simp [flatAll, ih]

theorem flatAll_block (kind : BlockKind) (argument : String) (body rest : List Node)
    (place : Location) :
    flatAll (kind.node argument body place :: rest) =
      kind.node argument body place :: (flatAll body ++ flatAll rest) := by
  cases kind <;> simp [BlockKind.node, flatAll, flat]

theorem leading_block (kind : BlockKind) (argument : String) (body : List Node)
    (place : Location) :
    (kind.node argument body place).leading =
      ⟨.opener kind argument, place.upTo place.offset⟩ := by
  cases kind <;> rfl

end Node

variable {ls : List Lexeme} {ns : List Node}

/-- **A tree lists the tokens that start its nodes**, in their order and at their
places. -/
theorem leading_flatAll (h : Derives ls ns) :
    (Node.flatAll ns).map Node.leading = (ls.filter fun x => x.token.leads).map Lexeme.start := by
  induction h with
  | nil => rfl
  | text _ ih | placeholder _ ih | inclusion _ ih => exact congrArg (List.cons _) ih
  | block kind argument opened closed _ _ ihbody ih =>
    rw [Node.flatAll_block, List.map_cons, List.map_append, ihbody, ih, Node.leading_block]
    simp [Token.leads, Lexeme.start, Location.upTo]
  | branches argument opened middle closed _ _ _ ihbody ihsecond ih =>
    rw [Node.flatAll, Node.flat, List.cons_append, List.map_cons, List.map_append, List.map_append,
      ihbody, ihsecond, ih]
    simp [Token.leads, Lexeme.start, Location.upTo, Node.leading, Node.token, Node.location]

/-- **What is collected along a tree is what is collected along its tokens**, where
nothing is taken from tokens that start no node. -/
theorem filterMap_flatAll {α : Type} (h : Derives ls ns) {pick : Token → Option α}
    (hmarks : ∀ token, token.leads = false → pick token = none) :
    (Node.flatAll ns).filterMap (fun node => pick node.token) =
      ls.filterMap fun x => pick x.token := by
  calc (Node.flatAll ns).filterMap (fun node => pick node.token)
      = ((Node.flatAll ns).map Node.leading).filterMap fun x => pick x.token := by
        rw [List.filterMap_map]
        rfl
    _ = (ls.filter fun x => x.token.leads).filterMap fun x => pick x.token := by
        rw [leading_flatAll h, List.filterMap_map]
        rfl
    _ = ls.filterMap fun x => pick x.token := by
        rw [List.filterMap_filter]
        refine List.filterMap_congr fun x _ => ?_
        split
        · rfl
        · next hleads => exact (hmarks x.token (by simpa using hleads)).symm

/-- The blocks of a tree are its openers, in their order and at their places. -/
theorem leading_blocks (h : Derives ls ns) :
    (Node.blocks ns).map Node.leading =
      (ls.filter fun x => x.token.isOpener).map Lexeme.start := by
  have hblock (node : Node) : node.blockKind?.isSome = node.leading.token.isOpener := by
    cases node <;> rfl
  have hopener (x : Lexeme) : (x.start.token.isOpener && x.token.leads) = x.token.isOpener := by
    obtain ⟨token, place⟩ := x
    cases token <;> rfl
  calc (Node.blocks ns).map Node.leading
      = ((Node.flatAll ns).map Node.leading).filter fun x => x.token.isOpener := by
        rw [Node.blocks, List.filter_map]
        refine congrArg (List.map Node.leading) (List.filter_congr fun node _ => hblock node)
    _ = (ls.filter fun x => x.token.isOpener).map Lexeme.start := by
        rw [leading_flatAll h, List.filter_map, List.filter_filter]
        exact congrArg (List.map Lexeme.start) (List.filter_congr fun x _ => hopener x)

/-- The values that a tree shows are those of its tokens, each once. -/
theorem placeholderNames_of_derives (h : Derives ls ns) :
    Node.placeholderNames ns = Text.distinct (ls.filterMap fun x => x.token.shown?) := by
  have hmarks (token : Token) (hleads : token.leads = false) : token.shown? = none := by
    cases token <;> simp_all [Token.leads, Token.shown?]
  rw [← filterMap_flatAll h hmarks]
  refine congrArg Text.distinct (List.filterMap_congr fun node _ => ?_)
  cases node <;> rfl

end Markup

end Trellis
