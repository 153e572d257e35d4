import Trellis.Proofs.Markup.Places
import Trellis.Proofs.Markup.Printing
import Trellis.Proofs.Render.Depth
/-!
# Markup — text without tags

A text in which no braces open has no tags (`tagless_of_not_infix`), and the tree of a
text without tags is nothing but text (`isText_of_parseAt`). Such a tree looks up nothing,
so it shows the same in every scope (`tree_of_isText`).
-/

namespace Trellis

namespace Markup

variable {text : String} {origin : Location} {ls : List Lexeme} {ns : List Node} {cs : List Char}

/-- Whether a token is literal text. -/
def Token.isText : Token → Bool
  | .text .. => true
  | _ => false

/-- That a text has no tags: its tokens are all literal text. -/
def Tagless (text : String) : Prop :=
  ∀ x ∈ (tokenize text .start).lexemes, x.token.isText = true

instance (text : String) : Decidable (Tagless text) :=
  List.decidableBAll (fun x : Lexeme => x.token.isText = true) (tokenize text .start).lexemes

/-- A run of text without opening braces takes all of it. -/
theorem literalRun_of_not_infix (h : ¬ opening false <:+: cs) : literalRun cs = (cs, []) := by
  fun_induction literalRun cs with
  | case1 => rfl
  | case2 cs => exact absurd ⟨[], cs, rfl⟩ h
  | case3 c cs _ text rest hrun ih =>
    have hmore := ih fun hpart => h (hpart.trans (List.suffix_cons c cs).isInfix)
    rw [hrun] at hmore
    obtain ⟨rfl, rfl⟩ := Prod.mk.inj hmore
    rfl

/-- **A text in which no braces open** has no tags. -/
theorem tagless_of_not_infix (h : ¬ opening false <:+: text.toList) : Tagless text := by
  intro x hx
  unfold tokenize at hx
  by_cases hne : text.toList = []
  · rw [hne, lexemes, dif_pos rfl] at hx
    cases hx
  · have hpiece : firstPiece text.toList = .ok (.literal text.toList, []) := by
      rw [firstPiece.eq_3 _ (fun more heq => h ⟨[], '{' :: more, by rw [heq]; rfl⟩)
        fun more heq => h ⟨[], more, by rw [heq]; rfl⟩, literalRun_of_not_infix h]
    rw [lexemes_of_ne_nil _ hne, hpiece] at hx
    simp only [Piece.token, lexemes_nil, List.mem_singleton] at hx
    rw [hx]
    rfl

/-- Tokens that are text derive text. -/
theorem isText_of_derives (h : Derives ls ns) (hls : ∀ x ∈ ls, x.token.isText = true) :
    ∀ n ∈ ns, n.isText = true := by
  induction h with
  | nil => exact List.forall_mem_nil _
  | text _ ih =>
    exact List.forall_mem_cons.2 ⟨rfl, ih fun x hx => hls x (List.mem_cons_of_mem _ hx)⟩
  | placeholder => cases hls _ List.mem_cons_self
  | inclusion => cases hls _ List.mem_cons_self
  | block => cases hls _ List.mem_cons_self
  | branches => cases hls _ List.mem_cons_self

/-- **The tree of a text without tags** is text, wherever it stands. -/
theorem isText_of_parseAt (htagless : Tagless text) (h : parseAt text origin = .ok ns) :
    ∀ n ∈ ns, n.isText = true := by
  refine isText_of_derives (treeOf_eq_ok_iff.1 h).2 fun x hx => ?_
  have hsame := (lexemes_elsewhere (origin.upTo origin.offset) (Location.start.upTo 0)
    text.toList).1
  have htoken := List.mem_map_of_mem (f := Lexeme.token) hx
  unfold tokenize at htoken
  rw [hsame] at htoken
  obtain ⟨y, hy, heq⟩ := List.mem_map.1 htoken
  rw [← heq]
  exact htagless y hy

end Markup

namespace Render

open Markup (Node)

variable {ns : List Node}

/-- Text shows the same in every scope. -/
theorem nodes_of_isText (h : ∀ n ∈ ns, n.isText = true) (escaping : Escaping)
    (embed : Inclusion) (scope scope' : Lookup) :
    nodes escaping embed ns scope = nodes escaping embed ns scope' := by
  induction ns with
  | nil => rfl
  | cons n ns ih =>
    obtain ⟨hn, hmore⟩ := List.forall_mem_cons.1 h
    cases n with
    | text content place => rw [nodes, nodes, ih hmore, node, node]
    | placeholder | inclusion | conditional | negated | loop => cases hn

theorem tree_of_isText (h : ∀ n ∈ ns, n.isText = true) (manner : Manner) (partials : Partials)
    (scope scope' : Lookup) : tree manner partials ns scope = tree manner partials ns scope' := by
  unfold tree
  rw [showWithin_eq, nodes_of_isText h _ _ scope scope']

end Render

end Trellis
