import Trellis.Proofs.Location
import Trellis.Proofs.Markup.Flattening
import Trellis.Proofs.Markup.Lexing
/-!
# Markup — where tokens and nodes stand

The pieces of a text are cut off it one by one, so the tokens lie side by side and
cover the text (`tiles_lexemes`). What is cut off can be read alone: tokens that
follow one another are the tokens of the part of the text that they cover
(`lexemes_append`). Hence every node of a tree stands in the source as a text that
has just this node for its tree (`stands_of_derives`), and whatever is blamed is at
a brace (`atCharacter_of_blames`).
-/

namespace Trellis

namespace Markup

open Location

variable {source : String} {place : Location} {cs a b rest rest' : List Char} {piece : Piece}
  {ls ms : List Lexeme} {x : Lexeme} {stopped : Option SourceError} {ns : List Node} {n : Node}
  {e : SourceError}

/-! ## Pieces -/

/-- A run and the rest make up the text, and the rest is empty or begins like a
tag. -/
theorem eq_of_literalRun (cs : List Char) :
    cs = (literalRun cs).1 ++ (literalRun cs).2 ∧
      ((literalRun cs).2 = [] ∨ ∃ more, (literalRun cs).2 = '{' :: '{' :: more) := by
  fun_induction literalRun cs with
  | case1 => exact ⟨rfl, .inl rfl⟩
  | case2 cs => exact ⟨rfl, .inr ⟨cs, rfl⟩⟩
  | case3 c cs _ text rest h ih =>
    rw [h] at ih
    exact ⟨by rw [List.cons_append, ← ih.1], ih.2⟩

/-- A piece that does not stand for literal text begins with a brace. -/
theorem opens_of_token (h : ∀ content, piece.token ≠ .ok (.text content)) :
    ∃ more, piece.written = '{' :: more := by
  cases piece with
  | literal text => exact absurd rfl (h _)
  | tag raw inner => cases raw <;> exact ⟨_, rfl⟩

/-- A text from which no piece can be cut off begins with a brace. -/
theorem opens_of_firstPiece {fault : SourceFault} (h : firstPiece cs = .error fault) :
    ∃ more, cs = '{' :: more := by
  unfold firstPiece at h
  split at h
  · exact ⟨_, rfl⟩
  · exact ⟨_, rfl⟩
  · cases h

/-- **A piece and the rest make up the text.** -/
theorem eq_of_firstPiece (h : firstPiece cs = .ok (piece, rest)) : cs = piece.written ++ rest := by
  have tagged {raw : Bool} {inner : List Char} (h : tagPiece raw inner = .ok (piece, rest)) :
      opening raw ++ inner = piece.written ++ rest := by
    unfold tagPiece at h
    split at h
    · next hcut =>
      obtain ⟨rfl, rfl⟩ := Prod.mk.inj (Except.ok.inj h)
      simp [Piece.written, Text.eq_of_cut? hcut]
    · cases h
  unfold firstPiece at h
  split at h
  · exact tagged h
  · exact tagged h
  · obtain ⟨rfl, rfl⟩ := Prod.mk.inj (Except.ok.inj h)
    exact (eq_of_literalRun cs).1

/-- That a text can stand behind a piece in place of another: it is cut short, but
not inside of the piece that comes next. -/
def Shortens (rest rest' : List Char) : Prop :=
  rest' = [] ∨ rest ≠ [] ∧ ∃ piece more, firstPiece rest = .ok (piece, more) ∧ piece.written <+: rest'

/-- A tag is a piece of its own, so a text that is cut short behind it begins with
its braces. -/
theorem Shortens.opens {more : List Char} (h : Shortens ('{' :: '{' :: more) rest') :
    rest' = [] ∨ ∃ more', rest' = '{' :: '{' :: more' := by
  rcases h with h | ⟨-, piece, behind, hpiece, found, rfl⟩
  · exact .inl h
  · refine .inr ?_
    have tagged {raw : Bool} {inner : List Char} (h : tagPiece raw inner = .ok (piece, behind)) :
        ∃ more', piece.written = '{' :: '{' :: more' := by
      unfold tagPiece at h
      split at h
      · obtain ⟨rfl, -⟩ := Prod.mk.inj (Except.ok.inj h)
        cases raw
        · exact ⟨_, rfl⟩
        · exact ⟨_, rfl⟩
      · cases h
    have hopens : ∃ more', piece.written = '{' :: '{' :: more' := by
      unfold firstPiece at hpiece
      split at hpiece
      · exact tagged hpiece
      · exact tagged hpiece
      · next hthree htwo => exact absurd rfl (htwo more)
    obtain ⟨more', hmore'⟩ := hopens
    exact ⟨more' ++ found, by rw [hmore']; rfl⟩

/-- Text that begins like a tag did so before it was cut short. -/
theorem opens_of_append {text more : List Char}
    (hrest : rest = [] ∨ ∃ more, rest = '{' :: '{' :: more) (hrest' : Shortens rest rest')
    (h : text ++ rest' = '{' :: '{' :: more) : ∃ more', text ++ rest = '{' :: '{' :: more' := by
  have hboth : rest' = [] ∨ ∃ more', rest = '{' :: '{' :: more' := by
    rcases hrest with rfl | hopens
    · exact .inl (hrest'.resolve_right fun h => h.1 rfl)
    · exact .inr hopens
  match text with
  | c :: d :: text =>
    obtain ⟨rfl, htail⟩ := List.cons.inj h
    obtain ⟨rfl, -⟩ := List.cons.inj htail
    exact ⟨text ++ rest, rfl⟩
  | [c] =>
    obtain ⟨rfl, htail⟩ := List.cons.inj h
    rcases hboth with rfl | ⟨more', rfl⟩
    · cases htail
    · exact ⟨'{' :: more', rfl⟩
  | [] =>
    rcases hboth with rfl | hopens
    · cases h
    · exact hopens

/-- A run ends where it ended also when the rest is cut short. -/
theorem literalRun_replace {text : List Char} (h : literalRun cs = (text, rest))
    (hrest' : Shortens rest rest') : literalRun (text ++ rest') = (text, rest') := by
  fun_induction literalRun cs generalizing text with
  | case1 =>
    obtain ⟨rfl, rfl⟩ := Prod.mk.inj h
    obtain rfl : rest' = [] := hrest'.resolve_right fun h => h.1 rfl
    rfl
  | case2 cs =>
    obtain ⟨rfl, rfl⟩ := Prod.mk.inj h
    rcases hrest'.opens with rfl | ⟨more, rfl⟩
    · rfl
    · rfl
  | case3 c cs hnot text' rest'' hrun ih =>
    obtain ⟨rfl, rfl⟩ := Prod.mk.inj h
    have hsplit := eq_of_literalRun cs
    rw [hrun] at hsplit
    have hopens : ∀ more, c = '{' → text' ++ rest' = '{' :: more → False := by
      rintro more rfl hmore
      obtain ⟨more', hmore'⟩ : ∃ more', ('{' :: text') ++ rest'' = '{' :: '{' :: more' :=
        opens_of_append hsplit.2 hrest' (by rw [List.cons_append, hmore])
      rw [List.cons_append, ← hsplit.1] at hmore'
      exact hnot more' rfl (List.cons.inj hmore').2
    rw [List.cons_append, literalRun.eq_3 _ _ hopens, ih hrun]

/-- **A piece is cut off whatever follows it**, as long as no other piece is cut in
two. -/
theorem firstPiece_replace (h : firstPiece cs = .ok (piece, rest)) (hrest' : Shortens rest rest') :
    firstPiece (piece.written ++ rest') = .ok (piece, rest') := by
  have tagged {raw : Bool} {inner : List Char} (h : tagPiece raw inner = .ok (piece, rest)) :
      ∃ within, piece = .tag raw within ∧ inner = within ++ closing raw ++ rest ∧
        tagPiece raw (within ++ closing raw ++ rest') = .ok (piece, rest') := by
    unfold tagPiece at h
    split at h
    · next within behind hcut =>
      obtain ⟨rfl, rfl⟩ := Prod.mk.inj (Except.ok.inj h)
      refine ⟨within, rfl, Text.eq_of_cut? hcut, ?_⟩
      rw [tagPiece, Text.cut?_replace hcut]
    · cases h
  unfold firstPiece at h
  split at h
  · next cs =>
    obtain ⟨within, rfl, -, hagain⟩ := tagged h
    simpa [Piece.written, opening, firstPiece] using hagain
  · next cs hthree =>
    obtain ⟨within, rfl, hinner, hagain⟩ := tagged h
    -- a third brace would have made the tag a raw one
    have hbrace : ∀ more, within ++ closing false ++ rest' = '{' :: more → False := by
      intro more hmore
      cases within with
      | nil => cases hmore
      | cons c within =>
        obtain ⟨rfl, -⟩ := List.cons.inj hmore
        exact hthree _ (by rw [hinner]; rfl)
    have hwritten : (Piece.tag false within).written ++ rest' =
        '{' :: '{' :: (within ++ closing false ++ rest') := by
      simp [Piece.written, opening]
    rw [hwritten, firstPiece.eq_2 _ hbrace, hagain]
  · next hthree htwo =>
    obtain ⟨rfl, rfl⟩ := Prod.mk.inj (Except.ok.inj h)
    have hsplit := eq_of_literalRun cs
    have hopens : ∀ more, (literalRun cs).1 ++ rest' = '{' :: '{' :: more → False := by
      intro more hmore
      obtain ⟨more', hmore'⟩ := opens_of_append hsplit.2 hrest' hmore
      exact htwo more' (hsplit.1.trans hmore')
    rw [Piece.written, firstPiece.eq_3 _ (fun more => hopens ('{' :: more)) hopens,
      literalRun_replace rfl hrest']

/-! ## Tokens -/

theorem lexemes_nil (place : Location) : lexemes place [] = ⟨[], none⟩ := by
  rw [lexemes, dif_pos rfl]

/-- **The first token** is that of the first piece. -/
theorem lexemes_eq_cons_iff :
    lexemes place cs = ⟨x :: ls, stopped⟩ ↔
      cs ≠ [] ∧ ∃ piece rest token, firstPiece cs = .ok (piece, rest) ∧ piece.token = .ok token ∧
        x = ⟨token, place.upTo (place.after piece.written).offset⟩ ∧
        lexemes (place.after piece.written) rest = ⟨ls, stopped⟩ := by
  constructor
  · intro h
    have hne : cs ≠ [] := by
      rintro rfl
      rw [lexemes_nil] at h
      cases h
    refine ⟨hne, ?_⟩
    rw [lexemes_of_ne_nil place hne] at h
    split at h
    · cases h
    · next piece rest hpiece =>
      split at h
      · cases h
      · next token htoken =>
        injection h with hls hstopped
        obtain ⟨rfl, rfl⟩ := List.cons.inj hls
        exact ⟨piece, rest, token, hpiece, htoken, rfl, by rw [← hstopped]⟩
  · rintro ⟨hne, piece, rest, token, hpiece, htoken, rfl, hmore⟩
    rw [lexemes_of_ne_nil place hne, hpiece]
    simp only [htoken, hmore]

/-- Without tokens the text is empty, or stopped at the brace that it starts with. -/
theorem lexemes_eq_nil (h : lexemes place cs = ⟨[], stopped⟩) :
    stopped = none ∧ cs = [] ∨
      ∃ e, stopped = some e ∧ e.location = place ∧ ∃ more, cs = '{' :: more := by
  by_cases hne : cs = []
  · subst hne
    rw [lexemes_nil] at h
    cases h
    exact .inl ⟨rfl, rfl⟩
  · rw [lexemes_of_ne_nil place hne] at h
    split at h
    · next hpiece =>
      cases h
      exact .inr ⟨_, rfl, rfl, opens_of_firstPiece hpiece⟩
    · next piece rest hpiece =>
      split at h
      · next htoken =>
        cases h
        have hwritten : ∀ content, piece.token ≠ .ok (.text content) := by simp [htoken]
        obtain ⟨more, hmore⟩ := opens_of_token hwritten
        exact .inr ⟨_, rfl, rfl, more ++ rest, by rw [eq_of_firstPiece hpiece, hmore]; rfl⟩
      · cases h

theorem written_ne_nil (hne : cs ≠ []) (h : firstPiece cs = .ok (piece, rest)) :
    piece.written ≠ [] := by
  intro hnil
  have hlength := length_of_firstPiece hne h
  rw [eq_of_firstPiece h, hnil] at hlength
  exact Nat.lt_irrefl _ hlength

/-- **Tokens one behind the other are the tokens of two parts of the text**, each
read alone. -/
theorem lexemes_append (h : lexemes place cs = ⟨ls ++ ms, stopped⟩) :
    ∃ a b, cs = a ++ b ∧ Shortens cs a ∧ lexemes place a = ⟨ls, none⟩ ∧
      lexemes (place.after a) b = ⟨ms, stopped⟩ := by
  induction ls generalizing place cs with
  | nil => exact ⟨[], cs, rfl, .inl rfl, lexemes_nil place, h⟩
  | cons x ls ih =>
    obtain ⟨hne, piece, rest, token, hpiece, htoken, rfl, hmore⟩ := lexemes_eq_cons_iff.1 h
    obtain ⟨a, b, rfl, hshort, ha, hb⟩ := ih hmore
    have hwritten := written_ne_nil hne hpiece
    refine ⟨piece.written ++ a, b, ?_, ?_, ?_, ?_⟩
    · rw [eq_of_firstPiece hpiece, List.append_assoc]
    · exact .inr ⟨hne, piece, a ++ b, hpiece, List.prefix_append _ _⟩
    · refine lexemes_eq_cons_iff.2 ⟨by simp [hwritten], piece, a, token, ?_, htoken, rfl, ha⟩
      exact firstPiece_replace hpiece hshort
    · rw [after_append]
      exact hb

/-- **Tokens side by side** from one offset to another, with none of them empty. -/
def Tiles (start stop : Nat) : List Lexeme → Prop
  | [] => start = stop
  | x :: ls =>
    x.location.offset = start ∧ start < x.location.endOffset ∧ Tiles x.location.endOffset stop ls

/-- **The tokens of a text lie side by side over all of it.** -/
theorem tiles_lexemes (h : lexemes place cs = ⟨ls, none⟩) :
    Tiles place.offset (place.after cs).offset ls := by
  induction ls generalizing place cs with
  | nil =>
    rcases lexemes_eq_nil h with ⟨-, rfl⟩ | ⟨e, he, -⟩
    · rfl
    · cases he
  | cons x ls ih =>
    obtain ⟨hne, piece, rest, token, hpiece, -, rfl, hmore⟩ := lexemes_eq_cons_iff.1 h
    have hoffset := offset_after place piece.written
    have hwidth := Text.width_pos (written_ne_nil hne hpiece)
    refine ⟨rfl, ?_, ?_⟩
    · have hlater : place.offset < (place.after piece.written).offset := by omega
      exact hlater
    · rw [eq_of_firstPiece hpiece, after_append]
      exact ih hmore

/-- **Each token covers its piece of the source.** -/
theorem covers_of_mem_lexemes (hheld : Holds source place cs)
    (h : lexemes place cs = ⟨ls, stopped⟩) (hx : x ∈ ls) :
    ∃ piece : Piece, Covers source x.location piece.written ∧ piece.token = .ok x.token := by
  induction ls generalizing place cs with
  | nil => cases hx
  | cons first ls ih =>
    obtain ⟨-, piece, rest, token, hpiece, htoken, rfl, hmore⟩ := lexemes_eq_cons_iff.1 h
    rw [eq_of_firstPiece hpiece] at hheld
    rcases List.mem_cons.1 hx with rfl | hx
    · exact ⟨piece, hheld.left.covers, htoken⟩
    · exact ih hheld.right hmore hx

/-- A text of one token is one piece. -/
theorem eq_of_lexemes_singleton (h : lexemes place cs = ⟨[x], none⟩) :
    x.location = place.upTo (place.after cs).offset ∧
      ∃ piece : Piece, cs = piece.written ∧ piece.token = .ok x.token := by
  obtain ⟨-, piece, rest, token, hpiece, htoken, rfl, hmore⟩ := lexemes_eq_cons_iff.1 h
  obtain rfl : rest = [] := by
    rcases lexemes_eq_nil hmore with ⟨-, hnil⟩ | ⟨e, he, -⟩
    · exact hnil
    · cases he
  have hcs : cs = piece.written := by
    rw [eq_of_firstPiece hpiece, List.append_nil]
  exact ⟨by rw [hcs], piece, hcs, htoken⟩

/-- No tag stands for literal text. -/
theorem token_ne_text {raw : Bool} {inner : List Char} {content : String} :
    Tag.token raw inner ≠ .ok (.text content) := by
  have hinclusion (cs : List Char) : Tag.inclusion cs ≠ .ok (.text content) := by
    unfold Tag.inclusion
    dsimp only
    split <;> simp
  have hopener (cs : List Char) : Tag.opener cs ≠ .ok (.text content) := by
    unfold Tag.opener
    dsimp only
    split
    · simp
    · split <;> simp
  have hcloser (cs : List Char) : Tag.closer cs ≠ .ok (.text content) := by
    unfold Tag.closer
    dsimp only
    split <;> simp
  have hclassified (cs : List Char) : Tag.classified cs ≠ .ok (.text content) := by
    unfold Tag.classified
    split
    · simp
    · split_ifs <;> simp [hinclusion, hopener, hcloser]
  unfold Tag.token
  dsimp only
  split_ifs
  · simp
  · simp
  · exact hclassified _

/-- Only literal text stands for text. -/
theorem written_of_token_text {content : String} (h : piece.token = .ok (.text content)) :
    piece.written = content.toList := by
  cases piece with
  | literal text =>
    obtain rfl : String.ofList text = content := by
      injection h with h
      injection h
    exact String.toList_ofList.symm
  | tag raw inner => exact absurd h token_ne_text

/-! ## Nodes -/

/-- What a node says of the text that it was read from: literal text is that text,
and any other node is the whole tree of it, read where it stands. -/
def Node.IsReadFrom : Node → List Char → Prop
  | .text content _, cs => cs = content.toList
  | n, cs => parseAt (String.ofList cs) n.location = .ok [n]

/-- **That the range of a node is where the text stands that it was read from.** -/
def Node.Stands (source : String) (n : Node) : Prop :=
  ∃ text, Covers source n.location text ∧ n.IsReadFrom text

theorem eq_of_derives_text {content : String} {location : Location}
    (h : Derives ls [.text content location]) : ls = [⟨.text content, location⟩] := by
  generalize hns : [Node.text content location] = ns at h
  cases h with
  | nil => cases hns
  | text rest =>
    obtain ⟨hnode, rfl⟩ := List.cons.inj hns
    cases hnode
    cases rest
    rfl
  | placeholder => cases hns
  | inclusion => cases hns
  | block kind => cases kind <;> cases hns
  | branches => cases hns

/-- A text whose tokens derive one node is where the node stands. -/
theorem stands_of_singleton (hheld : Holds source place cs) (hlex : lexemes place cs = ⟨ls, none⟩)
    (hderives : Derives ls [n]) (hplace : n.location = place.upTo (place.after cs).offset) :
    n.Stands source := by
  refine ⟨cs, hplace ▸ hheld.covers, ?_⟩
  have hparse : parseAt (String.ofList cs) n.location = .ok [n] := by
    have hpoint : n.location.upTo n.location.offset = place := by
      rw [hplace]
      exact hheld.upTo_offset
    rw [parseAt, tokenize, hpoint, String.toList_ofList, hlex]
    exact treeOf_eq_ok_iff.2 ⟨rfl, hderives⟩
  cases n with
  | text content location =>
    obtain rfl := eq_of_derives_text hderives
    obtain ⟨-, piece, rfl, htoken⟩ := eq_of_lexemes_singleton hlex
    exact written_of_token_text htoken
  | _ => exact hparse

/-- **The text of a block**: its opener, what is inside, and its closer, each with
its tokens. -/
theorem exists_block {body : List Lexeme} {opened closed : Lexeme}
    (hlex : lexemes place cs = ⟨opened :: (body ++ closed :: ls), stopped⟩) :
    ∃ first within last rest, cs = first ++ (within ++ last) ++ rest ∧
      lexemes place (first ++ (within ++ last)) = ⟨opened :: (body ++ [closed]), none⟩ ∧
      lexemes (place.after first) within = ⟨body, none⟩ ∧
      lexemes (place.after (first ++ (within ++ last))) rest = ⟨ls, stopped⟩ ∧
      opened.location.upTo closed.location.endOffset =
        place.upTo (place.after (first ++ (within ++ last))).offset := by
  have hwhole : lexemes place cs = ⟨(opened :: (body ++ [closed])) ++ ls, stopped⟩ := by
    simpa using hlex
  obtain ⟨whole, rest, rfl, -, hblock, hrest⟩ := lexemes_append hwhole
  obtain ⟨first, inner, rfl, -, hfirst, hinner⟩ :=
    lexemes_append (show lexemes place whole = ⟨[opened] ++ (body ++ [closed]), none⟩ from hblock)
  obtain ⟨within, last, rfl, -, hwithin, hlast⟩ := lexemes_append hinner
  refine ⟨first, within, last, rest, rfl, hblock, hwithin, hrest, ?_⟩
  obtain ⟨hopened, -⟩ := eq_of_lexemes_singleton hfirst
  obtain ⟨hclosed, -⟩ := eq_of_lexemes_singleton hlast
  rw [hopened, hclosed, after_append, after_append]
  rfl

/-- **Every node stands where it was read**, at any depth. -/
theorem stands_of_derives (h : Derives ls ns) (hheld : Holds source place cs)
    (hlex : lexemes place cs = ⟨ls, none⟩) : ∀ n ∈ Node.flatAll ns, n.Stands source := by
  have hleaf {x : Lexeme} {ls : List Lexeme} {n : Node} {place : Location} {cs : List Char}
      (hheld : Holds source place cs) (hlex : lexemes place cs = ⟨x :: ls, none⟩)
      (hderives : Derives [x] [n]) (hplace : n.location = x.location) :
      n.Stands source ∧ ∃ place' rest, Holds source place' rest ∧
        lexemes place' rest = ⟨ls, none⟩ := by
    obtain ⟨a, rest, rfl, -, ha, hrest⟩ :=
      lexemes_append (show lexemes place cs = ⟨[x] ++ ls, none⟩ from hlex)
    obtain ⟨hlocation, -⟩ := eq_of_lexemes_singleton ha
    exact ⟨stands_of_singleton hheld.left ha hderives (hplace.trans hlocation),
      _, rest, hheld.right, hrest⟩
  induction h generalizing place cs with
  | nil => simp [Node.flatAll]
  | text _ ih =>
    obtain ⟨hstands, place', rest, hheld', hrest⟩ := hleaf hheld hlex (.text .nil) rfl
    exact List.forall_mem_cons.2 ⟨hstands, ih hheld' hrest⟩
  | placeholder _ ih =>
    obtain ⟨hstands, place', rest, hheld', hrest⟩ := hleaf hheld hlex (.placeholder .nil) rfl
    exact List.forall_mem_cons.2 ⟨hstands, ih hheld' hrest⟩
  | inclusion _ ih =>
    obtain ⟨hstands, place', rest, hheld', hrest⟩ := hleaf hheld hlex (.inclusion .nil) rfl
    exact List.forall_mem_cons.2 ⟨hstands, ih hheld' hrest⟩
  | @block kind argument opened closed body ls inner ns hbody hmore ihbody ih =>
    obtain ⟨first, within, last, rest, rfl, hblock, hwithin, hrest, hplace⟩ := exists_block hlex
    have hstands : (kind.node argument inner (opened.upTo closed.endOffset)).Stands source := by
      refine stands_of_singleton hheld.left hblock (.block kind argument opened closed hbody .nil) ?_
      rw [← hplace]
      cases kind <;> rfl
    rw [Node.flatAll_block]
    refine List.forall_mem_cons.2 ⟨hstands, ?_⟩
    exact List.forall_mem_append.2
      ⟨ihbody hheld.left.right.left hwithin, ih hheld.right hrest⟩
  | @branches argument opened middle closed body second ls inner alternative ns hbody hsecond hmore
      ihbody ihsecond ih =>
    have hnested : lexemes place cs = ⟨⟨.opener .conditional argument, opened⟩ ::
        ((body ++ ⟨.otherwise, middle⟩ :: second) ++ ⟨.closer .conditional, closed⟩ :: ls), none⟩ := by
      simpa using hlex
    obtain ⟨first, within, last, rest, rfl, hblock, hwithin, hrest, hplace⟩ := exists_block hnested
    obtain ⟨a, between, rfl, -, ha, hbetween⟩ := lexemes_append hwithin
    obtain ⟨mark, b, rfl, -, -, hb⟩ := lexemes_append
      (show lexemes _ between = ⟨[⟨.otherwise, middle⟩] ++ second, none⟩ from hbetween)
    have hderives := Derives.branches argument opened middle closed hbody hsecond .nil
    have hstands : (Node.conditional argument inner alternative
        (opened.upTo closed.endOffset)).Stands source :=
      stands_of_singleton hheld.left hblock (by simpa using hderives) hplace
    have hheldWithin := hheld.left.right.left
    have hbranches := List.forall_mem_append.2
      ⟨ihbody hheldWithin.left ha, ihsecond hheldWithin.right.right hb⟩
    exact List.forall_mem_cons.2
      ⟨hstands, List.forall_mem_append.2 ⟨hbranches, ih hheld.right hrest⟩⟩

/-! ## What is blamed -/

/-- **Whatever is blamed is at a brace.** -/
theorem atCharacter_of_blames (hheld : Holds source place cs) (h : Blames (lexemes place cs) e) :
    AtCharacter source e.location := by
  generalize hlex : lexemes place cs = lexing at h
  have hbrace : '{' ≠ '\n' := by decide
  -- only a tag is blamed
  have hblamed {before after : List Lexeme} {x : Lexeme} {stopped : Option SourceError}
      (h : lexemes place cs = ⟨before ++ x :: after, stopped⟩)
      (hne : ∀ content, x.token ≠ .text content) : AtCharacter source x.location := by
    obtain ⟨piece, hcovers, htoken⟩ :=
      covers_of_mem_lexemes hheld h (List.mem_append_right before List.mem_cons_self)
    obtain ⟨more, hmore⟩ := opens_of_token fun content h => by
      rw [htoken] at h
      exact hne content (Except.ok.inj h)
    rw [hmore] at hcovers
    exact hcovers.atCharacter hbrace
  cases h with
  | token _ _ hmisplaced =>
    refine hblamed hlex fun content htext => ?_
    rw [htext] at hmisplaced
    cases hmisplaced
  | @stop ls =>
    have hall : lexemes place cs = ⟨ls ++ [], some e⟩ := by rwa [List.append_nil]
    obtain ⟨a, rest, rfl, -, -, hrest⟩ := lexemes_append hall
    rcases lexemes_eq_nil hrest with ⟨hnone, -⟩ | ⟨e', he, hplace, more, rfl⟩
    · cases hnone
    · obtain rfl := Option.some.inj he
      exact hplace ▸ hheld.right.atCharacter hbrace
  | block =>
    refine hblamed hlex fun content htext => ?_
    cases htext

/-! ## Texts in a larger source -/

variable {text : String} {origin : Location}

/-- **A text that has no tree is refused at a brace.** -/
theorem atCharacter_of_parseAt (hheld : Holds source (origin.upTo origin.offset) text.toList)
    (h : parseAt text origin = .error e) : AtCharacter source e.location :=
  atCharacter_of_blames hheld (treeOf_eq_error_iff.1 h)

/-- **A text that has no tree is refused at a place of the source.** -/
theorem isPlaceIn_of_parseAt (hheld : Holds source (origin.upTo origin.offset) text.toList)
    (h : parseAt text origin = .error e) : IsPlaceIn source e.location :=
  (atCharacter_of_parseAt hheld h).isPlaceIn

/-- A text that has no tree is refused with the lines around the brace. -/
theorem fault_of_parse (h : parse text = .error e) :
    AtCharacter text e.location ∧
      e.snippet = some (Snippet.ofSource text e.location.line e.location.column) := by
  obtain ⟨cause, hcause, rfl⟩ := Except.mapError_eq_error_iff.1 h
  have hheld : Holds text (start.upTo start.offset) text.toList := holds_start text
  have hplace := atCharacter_of_parseAt hheld hcause
  exact ⟨hplace, rfl⟩

/-- All of a text that has a tree falls into tokens. -/
theorem lexemes_of_parseAt (h : parseAt text origin = .ok ns) :
    lexemes (origin.upTo origin.offset) text.toList = ⟨(tokenize text origin).lexemes, none⟩ := by
  obtain ⟨hstopped, -⟩ := treeOf_eq_ok_iff.1 h
  rw [← hstopped]
  rfl

/-- **Every node of a text that has a tree stands where it was read.** -/
theorem stands_of_parseAt (hheld : Holds source (origin.upTo origin.offset) text.toList)
    (h : parseAt text origin = .ok ns) : ∀ n ∈ Node.flatAll ns, n.Stands source :=
  stands_of_derives (treeOf_eq_ok_iff.1 h).2 hheld (lexemes_of_parseAt h)

/-- **The tokens of a text that has a tree lie side by side over it.** -/
theorem tiles_of_parseAt (h : parseAt text origin = .ok ns) :
    Tiles origin.offset ((origin.upTo origin.offset).after text.toList).offset
      (tokenize text origin).lexemes :=
  tiles_lexemes (lexemes_of_parseAt h)

end Markup

end Trellis
